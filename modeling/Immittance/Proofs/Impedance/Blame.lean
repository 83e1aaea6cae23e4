import Mathlib
import Immittance.Failure
import Immittance.Proofs.Circuit.Parts
import Immittance.Proofs.Impedance.Strict
import Immittance.Proofs.Results

/-!
# Where an impedance is missing

A circuit without impedance has one circuit inside of it that is at fault: a part, an empty group or
a parallel group in which a reciprocal does not exist. That circuit fails on its own with the same
fault, and so does every group around it up to the whole circuit.
-/

set_option autoImplicit false

namespace Immittance

section
variable {α : Type}

/-- The circuit `u` lies inside of another one or is that circuit, and `P` holds of every circuit on
the way to it, the two included. -/
inductive Circuit.Within (P : Circuit α → Prop) (u : Circuit α) : Circuit α → Prop
  | self (h : P u) : Within P u u
  | member {w : Wiring} {cs : List (Circuit α)} {c : Circuit α} (mem : c ∈ cs)
      (h : P (.group w cs)) (rest : Within P u c) : Within P u (.group w cs)

end

section
variable {α : Type} [Scalar α]

/-! ## Faults of a circuit's own -/

inductive Part.Fails (f : α) : Part α → Cause → Prop
  | frequency {kind : Kind} {value : α} (reactive : kind ≠ .resistor)
      (notPositive : Scalar.isPositive f = false) : Fails f ⟨kind, value⟩ .frequency
  | capacitance {value : α} (positive : Scalar.isPositive f = true)
      (zero : Scalar.isZero value = true) : Fails f ⟨.capacitor, value⟩ .capacitance
  | reactance {value : α} (positive : Scalar.isPositive f = true)
      (notZero : Scalar.isZero value = false)
      (vanishes : Scalar.isZero (Scalar.twoPi * f * value) = true) :
      Fails f ⟨.capacitor, value⟩ .reactance

namespace Circuit

def Admits (f : α) (c : Circuit α) (y : Phasor α) : Prop :=
  ∃ z, c.impedance f = .ok z ∧ z.reciprocal? = some y

/-- A circuit that is at fault itself, and for what cause. A parallel group is if the impedance of a
member has no reciprocal, the members before it having theirs, or if all members have theirs but the
sum has none. -/
inductive AtFault (f : α) : Circuit α → Cause → Prop
  | part {p : Part α} {cause : Cause} (fails : p.Fails f cause) : AtFault f (.part p) cause
  | empty (w : Wiring) : AtFault f (.group w []) .empty
  | member {before after : List (Circuit α)} {c : Circuit α} {ys : List (Phasor α)} {z : Phasor α}
      (admitted : List.Forall₂ (Admits f) before ys) (impedance : c.impedance f = .ok z)
      (noReciprocal : z.reciprocal? = none) :
      AtFault f (.group .parallel (before ++ c :: after)) .reciprocal
  | total {c : Circuit α} {cs : List (Circuit α)} {y : Phasor α} {ys : List (Phasor α)}
      (admitted : List.Forall₂ (Admits f) (c :: cs) (y :: ys))
      (noReciprocal : (ys.foldl Phasor.add y).reciprocal? = none) :
      AtFault f (.group .parallel (c :: cs)) .reciprocal

def Passes (f : α) (w : Wiring) (c : Circuit α) : Prop :=
  match w with
  | .series => ∃ z, c.impedance f = .ok z
  | .parallel => ∃ y, c.Admits f y

end Circuit

theorem part_impedance_eq_error_iff {f : α} {p : Part α} {e : Fault α} :
    p.impedance f = .error e ↔ ∃ cause, p.Fails f cause ∧ e = ⟨cause, .part p, f⟩ := by
  obtain ⟨kind, value⟩ := p
  constructor
  · intro h
    cases kind with
    | resistor => cases h
    | capacitor =>
      rw [Part.impedance] at h
      cases hf : Scalar.isPositive f with
      | false =>
        simp only [hf, Bool.not_false, if_true, Except.error.injEq] at h
        exact ⟨_, .frequency (by decide) hf, h.symm⟩
      | true =>
        cases hv : Scalar.isZero value with
        | true =>
          simp only [hf, hv, Bool.not_true, Bool.false_eq_true, if_false, if_true,
            Except.error.injEq] at h
          exact ⟨_, .capacitance hf hv, h.symm⟩
        | false =>
          cases hw : Scalar.isZero (Scalar.twoPi * f * value) with
          | true =>
            simp only [hf, hv, hw, Bool.not_true, Bool.false_eq_true, if_false, if_true,
              Except.error.injEq] at h
            exact ⟨_, .reactance hf hv hw, h.symm⟩
          | false => simp [hf, hv, hw] at h
    | inductor =>
      rw [Part.impedance] at h
      cases hf : Scalar.isPositive f with
      | false =>
        simp only [hf, Bool.not_false, if_true, Except.error.injEq] at h
        exact ⟨_, .frequency (by decide) hf, h.symm⟩
      | true => simp [hf] at h
  · rintro ⟨cause, h, rfl⟩
    cases h with
    | frequency reactive notPositive =>
      cases kind with
      | resistor => exact absurd rfl reactive
      | capacitor => simp [Part.impedance, notPositive]
      | inductor => simp [Part.impedance, notPositive]
    | capacitance positive zero => simp [Part.impedance, positive, zero]
    | reactance positive notZero vanishes => simp [Part.impedance, positive, notZero, vanishes]

theorem inverse_eq_ok_iff {f : α} {place : Circuit α} {z y : Phasor α} :
    inverse f place z = .ok y ↔ z.reciprocal? = some y := by
  rw [inverse]
  cases z.reciprocal? <;> simp

theorem inverse_eq_error_iff {f : α} {place : Circuit α} {z : Phasor α} {e : Fault α} :
    inverse f place z = .error e ↔ z.reciprocal? = none ∧ e = ⟨.reciprocal, place, f⟩ := by
  rw [inverse]
  cases z.reciprocal? <;> simp [eq_comm]

/-! ## Groups in series -/

theorem exists_seriesFrom {f : α} (total : Phasor α) {cs : List (Circuit α)}
    (h : ∀ c ∈ cs, ∃ z, c.impedance f = .ok z) : ∃ z, seriesFrom f total cs = .ok z := by
  induction cs generalizing total with
  | nil => exact ⟨total, by rw [seriesFrom]⟩
  | cons c cs ih =>
    obtain ⟨⟨z, hz⟩, hcs⟩ := List.forall_mem_cons.mp h
    rw [seriesFrom, hz]
    exact ih _ hcs

theorem seriesFrom_append (f : α) (total : Phasor α) (cs ds : List (Circuit α)) :
    seriesFrom f total (cs ++ ds) = seriesFrom f total cs >>= fun z => seriesFrom f z ds := by
  induction cs generalizing total with
  | nil => rw [seriesFrom]; rfl
  | cons c cs ih =>
    rw [List.cons_append, seriesFrom, seriesFrom, bind_assoc]
    congr 1
    funext z
    exact ih _

/-- A sum fails with its first member that does. -/
theorem seriesFrom_eq_error_iff {f : α} {total : Phasor α} {cs : List (Circuit α)} {e : Fault α} :
    seriesFrom f total cs = .error e ↔ ∃ before c after, cs = before ++ c :: after ∧
      (∀ b ∈ before, ∃ z, b.impedance f = .ok z) ∧ c.impedance f = .error e := by
  constructor
  · intro h
    induction cs generalizing total with
    | nil => rw [seriesFrom] at h; cases h
    | cons c cs ih =>
      rw [seriesFrom] at h
      rcases bind_eq_error_iff.mp h with hc | ⟨z, hz, h⟩
      · exact ⟨[], c, cs, rfl, by simp, hc⟩
      · obtain ⟨before, d, after, rfl, hb, hd⟩ := ih h
        exact ⟨c :: before, d, after, rfl, List.forall_mem_cons.mpr ⟨⟨z, hz⟩, hb⟩, hd⟩
  · rintro ⟨before, c, after, rfl, hb, hc⟩
    obtain ⟨z, hz⟩ := exists_seriesFrom total hb
    rw [seriesFrom_append, hz]
    show seriesFrom f z (c :: after) = _
    rw [seriesFrom, hc]
    rfl

/-! ## Groups in parallel -/

theorem parallelFrom_append (f : α) (place : Circuit α) (total : Phasor α)
    (cs ds : List (Circuit α)) :
    parallelFrom f place total (cs ++ ds) =
      parallelFrom f place total cs >>= fun y => parallelFrom f place y ds := by
  induction cs generalizing total with
  | nil => rw [parallelFrom]; rfl
  | cons c cs ih =>
    rw [List.cons_append, parallelFrom, parallelFrom]
    simp only [bind_assoc, ih]

theorem parallelFrom_eq_ok_iff {f : α} {place : Circuit α} {total y : Phasor α}
    {cs : List (Circuit α)} :
    parallelFrom f place total cs = .ok y ↔
      ∃ ys, List.Forall₂ (Circuit.Admits f) cs ys ∧ y = ys.foldl Phasor.add total := by
  induction cs generalizing total with
  | nil => simp [parallelFrom, eq_comm]
  | cons c cs ih =>
    rw [parallelFrom]
    constructor
    · intro h
      obtain ⟨z, hz, h⟩ := bind_eq_ok_iff.mp h
      obtain ⟨x, hx, h⟩ := bind_eq_ok_iff.mp h
      obtain ⟨ys, hys, rfl⟩ := ih.mp h
      exact ⟨x :: ys, .cons ⟨z, hz, inverse_eq_ok_iff.mp hx⟩ hys, rfl⟩
    · rintro ⟨ys, hys, rfl⟩
      cases hys with
      | cons hx hys =>
        obtain ⟨z, hz, hx⟩ := hx
        refine bind_eq_ok_iff.mpr ⟨z, hz, ?_⟩
        refine bind_eq_ok_iff.mpr ⟨_, inverse_eq_ok_iff.mpr hx, ?_⟩
        exact ih.mpr ⟨_, hys, rfl⟩

/-- A sum of reciprocals fails at the first member that has no impedance or no reciprocal of it. -/
theorem parallelFrom_eq_error_iff {f : α} {place : Circuit α} {total : Phasor α}
    {cs : List (Circuit α)} {e : Fault α} :
    parallelFrom f place total cs = .error e ↔
      ∃ before c after ys, cs = before ++ c :: after ∧
        List.Forall₂ (Circuit.Admits f) before ys ∧
        c.impedance f >>= inverse f place = .error e := by
  constructor
  · intro h
    induction cs generalizing total with
    | nil => rw [parallelFrom] at h; cases h
    | cons c cs ih =>
      have hassoc : (c.impedance f >>= inverse f place) >>=
          (fun y => parallelFrom f place (total.add y) cs) = .error e := by
        rw [bind_assoc, ← h, parallelFrom]
      rcases bind_eq_error_iff.mp hassoc with hc | ⟨y, hy, h⟩
      · exact ⟨[], c, cs, [], rfl, .nil, hc⟩
      · obtain ⟨before, d, after, ys, rfl, hb, hd⟩ := ih h
        obtain ⟨z, hz, hy⟩ := bind_eq_ok_iff.mp hy
        exact ⟨c :: before, d, after, y :: ys, rfl, .cons ⟨z, hz, inverse_eq_ok_iff.mp hy⟩ hb, hd⟩
  · rintro ⟨before, c, after, ys, rfl, hb, hc⟩
    rw [parallelFrom_append, parallelFrom_eq_ok_iff.mpr ⟨ys, hb, rfl⟩]
    show parallelFrom f place _ (c :: after) = _
    rw [parallelFrom, ← bind_assoc]
    exact bind_eq_error_iff.mpr (Or.inl hc)

def admittance (f : α) (place c : Circuit α) (cs : List (Circuit α)) :
    Except (Fault α) (Phasor α) :=
  c.impedance f >>= inverse f place >>= fun y => parallelFrom f place y cs

theorem parallel_impedance (f : α) (c : Circuit α) (cs : List (Circuit α)) :
    (Circuit.group .parallel (c :: cs)).impedance f =
      admittance f (.group .parallel (c :: cs)) c cs >>=
        inverse f (.group .parallel (c :: cs)) := by
  rw [Circuit.impedance, admittance, bind_assoc, bind_assoc]

theorem admittance_eq_ok_iff {f : α} {place c : Circuit α} {cs : List (Circuit α)}
    {total : Phasor α} :
    admittance f place c cs = .ok total ↔
      ∃ y ys, List.Forall₂ (Circuit.Admits f) (c :: cs) (y :: ys) ∧
        total = ys.foldl Phasor.add y := by
  rw [admittance, bind_eq_ok_iff]
  constructor
  · rintro ⟨y, hy, h⟩
    obtain ⟨z, hz, hy⟩ := bind_eq_ok_iff.mp hy
    obtain ⟨ys, hys, rfl⟩ := parallelFrom_eq_ok_iff.mp h
    exact ⟨y, ys, .cons ⟨z, hz, inverse_eq_ok_iff.mp hy⟩ hys, rfl⟩
  · rintro ⟨y, ys, h, rfl⟩
    obtain ⟨⟨z, hz, hy⟩, hys⟩ := List.forall₂_cons.mp h
    exact ⟨y, bind_eq_ok_iff.mpr ⟨z, hz, inverse_eq_ok_iff.mpr hy⟩,
      parallelFrom_eq_ok_iff.mpr ⟨ys, hys, rfl⟩⟩

/-- With what a sum begins makes no difference to where it fails. -/
theorem admittance_eq_error_iff {f : α} {place c : Circuit α} {cs : List (Circuit α)}
    {e : Fault α} :
    admittance f place c cs = .error e ↔
      ∃ before d after ys, c :: cs = before ++ d :: after ∧
        List.Forall₂ (Circuit.Admits f) before ys ∧
        d.impedance f >>= inverse f place = .error e := by
  have hzero : admittance f place c cs = .error e ↔
      parallelFrom f place Phasor.zero (c :: cs) = .error e := by
    rw [parallelFrom, ← bind_assoc, admittance]
    cases c.impedance f >>= inverse f place with
    | error e' => exact Iff.rfl
    | ok y => exact parallelFrom_eq_error_iff.trans parallelFrom_eq_error_iff.symm
  exact hzero.trans parallelFrom_eq_error_iff

/-! ## Faults of groups -/

theorem series_impedance_eq_error_iff {f : α} {cs : List (Circuit α)} {e : Fault α}
    (some : cs ≠ []) :
    (Circuit.group .series cs).impedance f = .error e ↔ ∃ before c after,
      cs = before ++ c :: after ∧ (∀ b ∈ before, b.Passes f .series) ∧ c.impedance f = .error e := by
  obtain ⟨c, cs, rfl⟩ := List.exists_cons_of_ne_nil some
  rw [Circuit.impedance, seriesFrom_eq_error_iff]
  rfl

/-- A parallel group fails as its first member that fails, or for a reciprocal of its own. -/
theorem parallel_impedance_eq_error_iff {f : α} {cs : List (Circuit α)} {e : Fault α}
    (some : cs ≠ []) :
    (Circuit.group .parallel cs).impedance f = .error e ↔
      (∃ before c after ys, cs = before ++ c :: after ∧
        List.Forall₂ (Circuit.Admits f) before ys ∧ c.impedance f = .error e) ∨
      ((Circuit.group .parallel cs).AtFault f .reciprocal ∧
        e = ⟨.reciprocal, .group .parallel cs, f⟩) := by
  obtain ⟨c, cs, rfl⟩ := List.exists_cons_of_ne_nil some
  rw [parallel_impedance, bind_eq_error_iff, admittance_eq_error_iff]
  constructor
  · rintro (⟨before, d, after, ys, h, hb, hd⟩ | ⟨total, htotal, h⟩)
    · rcases bind_eq_error_iff.mp hd with hd | ⟨z, hz, hd⟩
      · exact Or.inl ⟨before, d, after, ys, h, hb, hd⟩
      · obtain ⟨hz', he⟩ := inverse_eq_error_iff.mp hd
        exact Or.inr ⟨h ▸ .member hb hz hz', he⟩
    · obtain ⟨y, ys, hys, rfl⟩ := admittance_eq_ok_iff.mp htotal
      obtain ⟨hy, he⟩ := inverse_eq_error_iff.mp h
      exact Or.inr ⟨.total hys hy, he⟩
  · rintro (⟨before, d, after, ys, h, hb, hd⟩ | ⟨h, rfl⟩)
    · exact Or.inl ⟨before, d, after, ys, h, hb, bind_eq_error_iff.mpr (Or.inl hd)⟩
    · generalize hcs : Circuit.group .parallel (c :: cs) = place at h
      cases h with
      | part => cases hcs
      | member hb hz hz' =>
        refine Or.inl ⟨_, _, _, _, (Circuit.group.inj hcs).2, hb, ?_⟩
        exact bind_eq_error_iff.mpr (Or.inr ⟨_, hz, inverse_eq_error_iff.mpr ⟨hz', rfl⟩⟩)
      | total hys hy =>
        obtain ⟨rfl, rfl⟩ := List.cons.inj (Circuit.group.inj hcs).2
        exact Or.inr ⟨_, admittance_eq_ok_iff.mpr ⟨_, _, hys, rfl⟩,
          inverse_eq_error_iff.mpr ⟨hy, rfl⟩⟩

/-- A group fails with the fault of its first member that fails, if the group gets past the members
before it. -/
theorem impedance_of_member {f : α} {w : Wiring} {before after : List (Circuit α)} {c : Circuit α}
    {e : Fault α} (hb : ∀ b ∈ before, b.Passes f w) (hc : c.impedance f = .error e) :
    (Circuit.group w (before ++ c :: after)).impedance f = .error e := by
  cases w with
  | series => exact (series_impedance_eq_error_iff (by simp)).mpr ⟨before, c, after, rfl, hb, hc⟩
  | parallel =>
    obtain ⟨ys, hys⟩ := exists_forall₂_iff.mpr hb
    exact (parallel_impedance_eq_error_iff (by simp)).mpr
      (Or.inl ⟨before, c, after, ys, rfl, hys, hc⟩)

/-- What fails is at fault itself, or a group of which a member fails with the same fault. -/
theorem atFault_or_member {f : α} {t : Circuit α} {e : Fault α} (h : t.impedance f = .error e) :
    (t.AtFault f e.cause ∧ e = ⟨e.cause, t, f⟩) ∨
      ∃ w cs c, t = .group w cs ∧ c ∈ cs ∧ c.impedance f = .error e := by
  cases t with
  | part p =>
    rw [Circuit.impedance] at h
    obtain ⟨cause, hp, rfl⟩ := part_impedance_eq_error_iff.mp h
    exact Or.inl ⟨.part hp, rfl⟩
  | group w cs =>
    by_cases hcs : cs = []
    · subst hcs
      rw [Circuit.impedance] at h
      obtain rfl := Except.error.inj h
      exact Or.inl ⟨.empty w, rfl⟩
    · cases w with
      | series =>
        obtain ⟨before, c, after, rfl, _, hc⟩ := (series_impedance_eq_error_iff hcs).mp h
        exact Or.inr ⟨_, _, c, rfl, by simp, hc⟩
      | parallel =>
        rcases (parallel_impedance_eq_error_iff hcs).mp h with
          ⟨before, c, after, _, rfl, _, hc⟩ | ⟨hat, rfl⟩
        · exact Or.inr ⟨_, _, c, rfl, by simp, hc⟩
        · exact Or.inl ⟨hat, rfl⟩

/-- A fault is passed on unchanged from the circuit at fault to the whole. -/
theorem within_of_error {f : α} {e : Fault α} (t : Circuit α) (h : t.impedance f = .error e) :
    ∃ u, u.Within (fun v => v.impedance f = .error e) t ∧ u.AtFault f e.cause ∧
      e = ⟨e.cause, u, f⟩ := by
  induction t using Circuit.by_members with
  | part p =>
    rcases atFault_or_member h with ⟨hp, he⟩ | ⟨w, cs, c, ht, _⟩
    · exact ⟨_, .self h, hp, he⟩
    · cases ht
  | group w cs ih =>
    rcases atFault_or_member h with ⟨hg, he⟩ | ⟨w', cs', c, ht, hc, hce⟩
    · exact ⟨_, .self h, hg, he⟩
    · obtain ⟨rfl, rfl⟩ := Circuit.group.inj ht
      obtain ⟨u, hu, hat, he⟩ := ih c hc hce
      exact ⟨u, .member hc h hu, hat, he⟩

end

theorem Circuit.Within.holds {α : Type} {P : Circuit α → Prop} {u t : Circuit α}
    (h : u.Within P t) : P u := by
  induction h with
  | self h => exact h
  | member _ _ _ ih => exact ih

theorem Circuit.Within.imp {α : Type} {P Q : Circuit α → Prop} {u t : Circuit α}
    (h : u.Within P t) (himp : ∀ c, P c → Q c) : u.Within Q t := by
  induction h with
  | self h => exact .self (himp _ h)
  | member mem h _ ih => exact .member mem (himp _ h) ih

theorem not_atFault_series {α : Type} [Scalar α] {f : α} {cs : List (Circuit α)} {cause : Cause}
    (h : (Circuit.group .series cs).AtFault f cause) : cs = [] := by
  cases h
  rfl

theorem report_element (e : Fault Float) : e.report.element = e.place.describe := rfl

/-- A fault at a frequency names that frequency and describes a circuit inside of the whole that is
at fault, never a series group with members. That circuit fails on its own with the same fault, and
so does every circuit on the way to it, however strictly it is evaluated. What a group gets to of a
member's fault it passes on unchanged. -/
theorem fault_blames (t : Circuit Float) (f : Float) :
    (∀ e, t.impedance f = .error e → e.frequency = f ∧
      ∃ u, e.report.element = u.describe ∧ e = ⟨e.cause, u, f⟩ ∧ u.impedance f = .error e ∧
        u.AtFault f e.cause ∧ (∀ cs, u = .group .series cs → cs = []) ∧
        u.Within (fun v => v.impedance f = .error e ∧ v.strict f = .error (Halt.ofFault e)) t) ∧
    ∀ w before c after e, t = .group w (before ++ c :: after) → (∀ b ∈ before, b.Passes f w) →
      c.impedance f = .error e → t.impedance f = .error e := by
  constructor
  · intro e h
    obtain ⟨u, hu, hat, he⟩ := within_of_error t h
    have hplace : e.place = u := congrArg Fault.place he
    refine ⟨congrArg Fault.frequency he, u, ?_, he, hu.holds, hat, ?_, ?_⟩
    · rw [report_element, hplace]
    · rintro cs rfl
      exact not_atFault_series hat
    · refine hu.imp fun v hv => ⟨hv, ?_⟩
      rw [strict_eq, hv]
      rfl
  · rintro w before c after e rfl hb hc
    exact impedance_of_member hb hc

theorem fault_blames_parallel :
    let branches := Circuit.group .parallel
      [.part ⟨.resistor, (2 : Float)⟩, .part ⟨.resistor, (-2 : Float)⟩]
    let resistor := Circuit.part ⟨.resistor, (1 : Float)⟩
    let whole := Circuit.group .series [resistor, branches, .group .series []]
    let e : Fault Float := ⟨.reciprocal, branches, 50⟩
    branches.impedance 50 = .error e ∧ resistor.Passes 50 .series ∧
    whole.impedance 50 = .error e ∧ e.report.element = branches.describe ∧
    branches.AtFault 50 .reciprocal := by
  intro branches resistor whole e
  have hbranches : branches.impedance 50 = .error e := rfl
  have hresistor : resistor.Passes 50 .series := ⟨_, rfl⟩
  have hwhole : whole.impedance 50 = .error e :=
    (fault_blames whole 50).2 .series [resistor] branches [.group .series []] e rfl
      (by simpa using hresistor) hbranches
  obtain ⟨_, u, helement, he, _, hat, _⟩ := (fault_blames whole 50).1 e hwhole
  obtain rfl : branches = u := congrArg Fault.place he
  exact ⟨hbranches, hresistor, hwhole, helement, hat⟩

end Immittance
