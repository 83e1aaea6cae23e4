import Mathlib
import Immittance.Proofs.Impedance.Group

/-!
# When there is an impedance

A circuit that has an impedance meets a few conditions, and so does everything inside of it: groups
have members, a capacitor or an inductor is driven above zero, and a capacitor takes up charge. The
conditions are all there is to meet where no group is parallel, and one of them is broken wherever a
circuit fails for a reason other than arithmetic.
-/

set_option autoImplicit false

namespace Immittance

structure Circuit.Drivable (f : Float) (t : Circuit Float) : Prop where
  members : ∀ w, ¬(Circuit.group w []).Inside t
  frequency : ∀ p, (Circuit.part p).Inside t → p.kind ≠ .resistor → 0 < f
  capacitance : ∀ v, (Circuit.part ⟨.capacitor, v⟩).Inside t → (v == 0) = false
  reactance : ∀ v, (Circuit.part ⟨.capacitor, v⟩).Inside t → (Scalar.twoPi * f * v == 0) = false

open Circuit

theorem part_evaluates_iff {α : Type} [Scalar α] {f : α} {p : Part α} :
    (∃ z, p.impedance f = .ok z) ↔ ∀ cause, ¬p.Fails f cause := by
  constructor
  · rintro ⟨z, hz⟩ cause h
    rw [part_impedance_eq_error_iff.mpr ⟨cause, h, rfl⟩] at hz
    cases hz
  · intro h
    cases hp : p.impedance f with
    | ok z => exact ⟨z, rfl⟩
    | error e =>
      obtain ⟨cause, hcause, -⟩ := part_impedance_eq_error_iff.mp hp
      exact absurd hcause (h cause)

theorem isPositive_eq_false_iff {f : Float} : Scalar.isPositive f = false ↔ ¬0 < f :=
  decide_eq_false_iff_not

/-- A part fails exactly where a condition on parts is broken. -/
theorem part_fails_iff {f : Float} {p : Part Float} :
    (∃ cause, p.Fails f cause) ↔ (p.kind ≠ .resistor ∧ ¬0 < f) ∨
      p.kind = .capacitor ∧ ((p.value == 0) = true ∨ (Scalar.twoPi * f * p.value == 0) = true) := by
  constructor
  · rintro ⟨cause, h⟩
    cases h with
    | frequency reactive notPositive =>
      exact Or.inl ⟨reactive, isPositive_eq_false_iff.mp notPositive⟩
    | capacitance positive zero => exact Or.inr ⟨rfl, Or.inl zero⟩
    | reactance positive notZero vanishes => exact Or.inr ⟨rfl, Or.inr vanishes⟩
  · obtain ⟨kind, value⟩ := p
    by_cases hf : 0 < f
    · rintro (⟨-, h⟩ | ⟨hkind, hzero⟩)
      · exact absurd hf h
      · obtain rfl : kind = .capacitor := hkind
        have hpositive : Scalar.isPositive f = true := decide_eq_true hf
        cases hv : (value == 0) with
        | true => exact ⟨_, .capacitance hpositive hv⟩
        | false =>
          rcases hzero with h | h
          · rw [hv] at h
            cases h
          · exact ⟨_, .reactance hpositive hv h⟩
    · rintro (⟨hkind, -⟩ | ⟨hkind, -⟩)
      · exact ⟨_, .frequency hkind (isPositive_eq_false_iff.mpr hf)⟩
      · have hreactive : kind ≠ .resistor := by
          rintro rfl
          cases hkind
        exact ⟨_, .frequency hreactive (isPositive_eq_false_iff.mpr hf)⟩

/-- A circuit with an impedance is drivable. -/
theorem drivable_of_evaluates {f : Float} {t : Circuit Float} {z : Phasor Float}
    (h : t.impedance f = .ok z) : t.Drivable f := by
  have hpart : ∀ p, (Circuit.part p).Inside t → ¬∃ cause, p.Fails f cause := by
    rintro p hp ⟨cause, hcause⟩
    obtain ⟨y, hy⟩ := inside_evaluates t h hp
    rw [Circuit.impedance] at hy
    exact part_evaluates_iff.mp ⟨y, hy⟩ cause hcause
  constructor
  · intro w hw
    obtain ⟨y, hy⟩ := inside_evaluates t h hw
    rw [empty_impedance] at hy
    cases hy
  · intro p hp hkind
    by_contra hf
    exact hpart p hp (part_fails_iff.mpr (Or.inl ⟨hkind, hf⟩))
  · intro v hv
    by_contra hzero
    exact hpart _ hv (part_fails_iff.mpr (Or.inr ⟨rfl, Or.inl (by simpa using hzero)⟩))
  · intro v hv
    by_contra hzero
    exact hpart _ hv (part_fails_iff.mpr (Or.inr ⟨rfl, Or.inr (by simpa using hzero)⟩))

theorem Circuit.Drivable.member {f : Float} {w : Wiring} {cs : List (Circuit Float)}
    (h : (Circuit.group w cs).Drivable f) {c : Circuit Float} (hc : c ∈ cs) : c.Drivable f where
  members v hv := h.members v (inside_of_mem w hc hv)
  frequency p hp := h.frequency p (inside_of_mem w hc hp)
  capacitance v hv := h.capacitance v (inside_of_mem w hc hv)
  reactance v hv := h.reactance v (inside_of_mem w hc hv)

/-- A drivable circuit without parallel groups has an impedance. -/
theorem evaluates_of_drivable {f : Float} (t : Circuit Float)
    (hseries : ∀ cs, ¬(Circuit.group .parallel cs).Inside t) (h : t.Drivable f) :
    ∃ z, t.impedance f = .ok z := by
  induction t using Circuit.by_members with
  | part p =>
    rw [Circuit.impedance]
    apply part_evaluates_iff.mpr
    intro cause hcause
    rcases part_fails_iff.mp ⟨cause, hcause⟩ with ⟨hkind, hf⟩ | ⟨hkind, hzero⟩
    · exact hf (h.frequency p (inside_self _) hkind)
    · obtain ⟨kind, value⟩ := p
      obtain rfl : kind = .capacitor := hkind
      rcases hzero with hzero | hzero
      · rw [h.capacitance value (inside_self _)] at hzero
        cases hzero
      · rw [h.reactance value (inside_self _)] at hzero
        cases hzero
  | group w cs ih =>
    cases w with
    | parallel => exact absurd (inside_self _) (hseries cs)
    | series =>
      cases cs with
      | nil => exact absurd (inside_self _) (h.members .series)
      | cons c cs =>
        rw [Circuit.impedance]
        apply exists_seriesFrom
        intro d hd
        apply ih d hd
        · exact fun ds hds => hseries ds (inside_of_mem .series hd hds)
        · exact h.member hd

/-- A fault that is not one of arithmetic breaks a condition somewhere in the circuit. -/
theorem broken_of_fault {f : Float} {t : Circuit Float} {e : Fault Float}
    (h : t.impedance f = .error e) (hcause : e.cause.isArithmetic = false) :
    (∃ w, (Circuit.group w []).Inside t) ∨
    (∃ p, (Circuit.part p).Inside t ∧ p.kind ≠ .resistor ∧ ¬0 < f) ∨
    ∃ v, (Circuit.part ⟨.capacitor, v⟩).Inside t ∧ (v == 0) = true := by
  obtain ⟨u, hwithin, hat, -⟩ := within_of_error t h
  have hinside : u.Inside t := hwithin.imp fun _ _ => trivial
  generalize e.cause = cause at hat hcause
  cases hat with
  | empty w => exact Or.inl ⟨w, hinside⟩
  | member => cases hcause
  | total => cases hcause
  | part fails =>
    cases fails with
    | frequency reactive notPositive =>
      exact Or.inr (Or.inl ⟨_, hinside, reactive, isPositive_eq_false_iff.mp notPositive⟩)
    | capacitance positive zero => exact Or.inr (Or.inr ⟨_, hinside, zero⟩)
    | reactance => cases hcause

/-- A circuit with an impedance has one for everything inside of it and is drivable. Without parallel
groups a drivable circuit has an impedance. A fault that is not one of arithmetic comes from an empty
group, a capacitor or inductor that is not driven above zero, or a capacitor of no value. -/
theorem impedance_conditions (t : Circuit Float) (f : Float) :
    (∀ z, t.impedance f = .ok z →
      (∀ u : Circuit Float, u.Inside t → ∃ y, u.impedance f = .ok y) ∧ t.Drivable f) ∧
    ((∀ cs, ¬(Circuit.group .parallel cs).Inside t) → t.Drivable f →
      ∃ z, t.impedance f = .ok z) ∧
    ∀ e, t.impedance f = .error e → e.cause.isArithmetic = false →
      (∃ w, (Circuit.group w []).Inside t) ∨
      (∃ p, (Circuit.part p).Inside t ∧ p.kind ≠ .resistor ∧ ¬0 < f) ∨
      ∃ v, (Circuit.part ⟨.capacitor, v⟩).Inside t ∧ (v == 0) = true := by
  refine ⟨?necessary, ?sufficient, ?broken⟩
  case necessary =>
    intro z h
    exact ⟨fun u hu => inside_evaluates t h hu, drivable_of_evaluates h⟩
  case sufficient =>
    intro hseries h
    exact evaluates_of_drivable t hseries h
  case broken =>
    intro e h hcause
    exact broken_of_fault h hcause

theorem impedance_conditions_ladder :
    let branches := Circuit.group .parallel
      [.part ⟨.capacitor, (1e-6 : Float)⟩, .part ⟨.inductor, (0.01 : Float)⟩]
    let ladder := Circuit.group .series
      [.part ⟨.resistor, (1 : Float)⟩, .part ⟨.capacitor, (1e-6 : Float)⟩]
    let e : Fault Float := ⟨.frequency, .part ⟨.capacitor, 1e-6⟩, 0⟩
    (∃ z, branches.impedance 50 = .ok z) ∧ branches.Drivable 50 ∧
    (∀ cs, ¬(Circuit.group .parallel cs).Inside ladder) ∧ ladder.Drivable 50 ∧
    (∃ z, ladder.impedance 50 = .ok z) ∧
    ladder.impedance 0 = .error e ∧ e.cause.isArithmetic = false ∧
    ∃ p, (Circuit.part p).Inside ladder ∧ p.kind ≠ .resistor ∧ ¬(0 : Float) < 0 := by
  intro branches ladder e
  have hok : (branches.impedance 50).isOk = true := by decide +kernel
  have hseries : ∀ cs, ¬(Circuit.group .parallel cs).Inside ladder := by
    simp [ladder, inside_group_iff, inside_part_iff]
  have hladder : ladder.Drivable 50 := by
    constructor
    · simp [ladder, inside_group_iff, inside_part_iff]
    · exact fun p _ _ => by decide
    · simp [ladder, inside_group_iff, inside_part_iff]
      decide
    · simp [ladder, inside_group_iff, inside_part_iff]
      decide
  have he : ladder.impedance 0 = .error e := rfl
  obtain ⟨z, hz⟩ := exists_ok_of_isOk hok
  refine ⟨⟨z, hz⟩, ((impedance_conditions branches 50).1 z hz).2, hseries, hladder,
    (impedance_conditions ladder 50).2.1 hseries hladder, he, rfl, ?_⟩
  rcases (impedance_conditions ladder 0).2.2 e he rfl with ⟨w, hw⟩ | hfrequency | ⟨v, hv, hzero⟩
  · simp [ladder, inside_group_iff, inside_part_iff] at hw
  · exact hfrequency
  · simp [ladder, inside_group_iff, inside_part_iff] at hv
    subst hv
    exact absurd hzero (by decide)

end Immittance
