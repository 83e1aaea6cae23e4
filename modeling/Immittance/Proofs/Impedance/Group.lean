import Mathlib
import Immittance.Proofs.Impedance.Blame

/-!
# How groups come to their impedance

A group has an impedance only if it has members and they all have theirs. In series it is the sum
that the evaluation makes from left to right; in parallel the members admit reciprocals, and their
sum one more. What the parts satisfy and the sums and reciprocals keep, the whole satisfies.
-/

set_option autoImplicit false

namespace Immittance

section
variable {α : Type}

def Circuit.Inside (u t : Circuit α) : Prop := u.Within (fun _ => True) t

namespace Circuit

theorem inside_self (t : Circuit α) : t.Inside t := .self trivial

theorem inside_of_mem {u c : Circuit α} {cs : List (Circuit α)} (w : Wiring) (hc : c ∈ cs)
    (h : u.Inside c) : u.Inside (.group w cs) := .member hc trivial h

theorem inside_part_iff {u : Circuit α} {p : Part α} : u.Inside (.part p) ↔ u = .part p := by
  constructor
  · intro h
    cases h
    rfl
  · rintro rfl
    exact inside_self _

theorem inside_group_iff {u : Circuit α} {w : Wiring} {cs : List (Circuit α)} :
    u.Inside (.group w cs) ↔ u = .group w cs ∨ ∃ c ∈ cs, u.Inside c := by
  constructor
  · intro h
    cases h with
    | self => exact Or.inl rfl
    | member hc _ h => exact Or.inr ⟨_, hc, h⟩
  · rintro (rfl | ⟨c, hc, h⟩)
    · exact inside_self _
    · exact inside_of_mem w hc h

end Circuit

end

section
variable {α : Type} [Scalar α]

namespace Circuit

def Evaluates (f : α) (c : Circuit α) (z : Phasor α) : Prop := c.impedance f = .ok z

end Circuit

open Circuit

theorem seriesFrom_eq_ok_iff {f : α} {total z : Phasor α} {cs : List (Circuit α)} :
    seriesFrom f total cs = .ok z ↔
      ∃ zs, List.Forall₂ (Evaluates f) cs zs ∧ z = zs.foldl Phasor.add total := by
  induction cs generalizing total with
  | nil => simp [seriesFrom, eq_comm]
  | cons c cs ih =>
    rw [seriesFrom]
    constructor
    · intro h
      obtain ⟨x, hx, h⟩ := bind_eq_ok_iff.mp h
      obtain ⟨zs, hzs, rfl⟩ := ih.mp h
      exact ⟨x :: zs, .cons hx hzs, rfl⟩
    · rintro ⟨zs, hzs, rfl⟩
      cases hzs with
      | cons hx hzs => exact bind_eq_ok_iff.mpr ⟨_, hx, ih.mpr ⟨_, hzs, rfl⟩⟩

theorem empty_impedance (f : α) (w : Wiring) :
    (Circuit.group w []).impedance f = .error ⟨.empty, .group w [], f⟩ := by
  rw [Circuit.impedance]

theorem series_impedance_eq_ok_iff {f : α} {cs : List (Circuit α)} {z : Phasor α} :
    (Circuit.group .series cs).impedance f = .ok z ↔ cs ≠ [] ∧
      ∃ zs, List.Forall₂ (Evaluates f) cs zs ∧ z = zs.foldl Phasor.add Phasor.zero := by
  cases cs with
  | nil => simp [empty_impedance]
  | cons c cs =>
    rw [Circuit.impedance, seriesFrom_eq_ok_iff]
    simp

theorem parallel_impedance_eq_ok_iff {f : α} {cs : List (Circuit α)} {z : Phasor α} :
    (Circuit.group .parallel cs).impedance f = .ok z ↔
      ∃ y ys, List.Forall₂ (Admits f) cs (y :: ys) ∧
        (ys.foldl Phasor.add y).reciprocal? = some z := by
  cases cs with
  | nil => simp [empty_impedance]
  | cons c cs =>
    rw [parallel_impedance, bind_eq_ok_iff]
    constructor
    · rintro ⟨total, htotal, h⟩
      obtain ⟨y, ys, hys, rfl⟩ := admittance_eq_ok_iff.mp htotal
      exact ⟨y, ys, hys, inverse_eq_ok_iff.mp h⟩
    · rintro ⟨y, ys, hys, h⟩
      exact ⟨_, admittance_eq_ok_iff.mpr ⟨y, ys, hys, rfl⟩, inverse_eq_ok_iff.mpr h⟩

theorem reciprocal?_eq_some_iff {z y : Phasor α} : z.reciprocal? = some y ↔
    Scalar.isZero z.square = false ∧ y = ⟨z.re / z.square, -z.im / z.square⟩ := by
  rw [Phasor.reciprocal?]
  cases Scalar.isZero z.square with
  | false => simp [eq_comm]
  | true => simp

/-! ## Members of a group with an impedance -/

theorem members_of_ok {f : α} {w : Wiring} {cs : List (Circuit α)} {z : Phasor α}
    (h : (Circuit.group w cs).impedance f = .ok z) : cs ≠ [] ∧ ∀ c ∈ cs, c.Passes f w := by
  cases w with
  | series =>
    obtain ⟨hne, zs, hzs, -⟩ := series_impedance_eq_ok_iff.mp h
    exact ⟨hne, exists_forall₂_iff.mp ⟨zs, hzs⟩⟩
  | parallel =>
    obtain ⟨y, ys, hys, -⟩ := parallel_impedance_eq_ok_iff.mp h
    constructor
    · rintro rfl
      cases hys
    · exact exists_forall₂_iff.mp ⟨y :: ys, hys⟩

theorem evaluates_of_passes {f : α} {w : Wiring} {c : Circuit α} (h : c.Passes f w) :
    ∃ z, c.impedance f = .ok z := by
  cases w with
  | series => exact h
  | parallel =>
    obtain ⟨_, z, hz, -⟩ := h
    exact ⟨z, hz⟩

/-- A circuit with an impedance has circuits with impedances inside, and no empty group. -/
theorem inside_evaluates {f : α} (t : Circuit α) {z : Phasor α} (h : t.impedance f = .ok z)
    {u : Circuit α} (hu : u.Inside t) : ∃ y, u.impedance f = .ok y := by
  induction t using Circuit.by_members generalizing z with
  | part p =>
    obtain rfl := inside_part_iff.mp hu
    exact ⟨z, h⟩
  | group w cs ih =>
    rcases inside_group_iff.mp hu with rfl | ⟨c, hc, hu⟩
    · exact ⟨z, h⟩
    · obtain ⟨y, hy⟩ := evaluates_of_passes ((members_of_ok h).2 c hc)
      exact ih c hc hy hu

/-! ## What groups keep -/

/-- A property `P` of impedances and one `Q` of admittances that groups keep: sums keep them, and the
reciprocal leads from either to the other. -/
structure KeptByGroups (P Q : Phasor α → Prop) : Prop where
  zero : P Phasor.zero
  series : ∀ z w, P z → P w → P (z.add w)
  parallel : ∀ y x, Q y → Q x → Q (y.add x)
  admittance : ∀ z y, P z → z.reciprocal? = some y → Q y
  impedance : ∀ y z, Q y → y.reciprocal? = some z → P z

theorem foldl_add_keeps {P : Phasor α → Prop} (hadd : ∀ z w, P z → P w → P (z.add w))
    {total : Phasor α} (htotal : P total) {zs : List (Phasor α)} (hzs : ∀ z ∈ zs, P z) :
    P (zs.foldl Phasor.add total) := by
  induction zs generalizing total with
  | nil => exact htotal
  | cons z zs ih =>
    obtain ⟨hz, hzs⟩ := List.forall_mem_cons.mp hzs
    exact ih (hadd total z htotal hz) hzs

/-- What the parts satisfy and groups keep, the whole satisfies. -/
theorem KeptByGroups.holds {P Q : Phasor α → Prop} (kept : KeptByGroups P Q) {f : α}
    (t : Circuit α)
    (parts : ∀ p, (Circuit.part p).Inside t → ∀ z, p.impedance f = .ok z → P z) {z : Phasor α}
    (h : t.impedance f = .ok z) : P z := by
  induction t using Circuit.by_members generalizing z with
  | part p =>
    rw [Circuit.impedance] at h
    exact parts p (inside_self _) z h
  | group w cs ih =>
    have hmember : ∀ c ∈ cs, ∀ y, c.impedance f = .ok y → P y := fun c hc y hy =>
      ih c hc (fun p hp => parts p (inside_of_mem w hc hp)) hy
    cases w with
    | series =>
      obtain ⟨-, zs, hzs, rfl⟩ := series_impedance_eq_ok_iff.mp h
      exact foldl_add_keeps kept.series kept.zero (forall_of_forall₂ hzs hmember)
    | parallel =>
      -- the admittances of the members satisfy `Q`, so their sum does
      obtain ⟨y, ys, hys, hz⟩ := parallel_impedance_eq_ok_iff.mp h
      have hadmits : ∀ c ∈ cs, ∀ x, c.Admits f x → Q x := by
        rintro c hc x ⟨v, hv, hx⟩
        exact kept.admittance v x (hmember c hc v hv) hx
      obtain ⟨hy, hys⟩ := List.forall_mem_cons.mp (forall_of_forall₂ hys hadmits)
      exact kept.impedance _ z (foldl_add_keeps kept.parallel hy hys) hz

end

end Immittance
