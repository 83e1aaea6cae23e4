import Mathlib
import Immittance.Quantity.Unit

/-!
# Products as exponents

A product of powers to whole exponents is the function from what it is made of to the exponents, zero
nearly everywhere. A list counts such a function if it has each key of an exponent other than zero
once, in any order. The operations on lists add, negate and multiply the exponents.
-/

set_option autoImplicit false

namespace Immittance.Powers

open Finsupp (single)

variable {α : Type}

def weigh (c : α →₀ ℤ) (keys : List α) : Powers α := keys.map fun a => (a, .whole (c a))

def Tallies (ps : Powers α) (c : α →₀ ℤ) : Prop :=
  ∃ keys : List α, keys.Nodup ∧ (∀ a, c a ≠ 0 → a ∈ keys) ∧ ps = weigh c keys

def Counts (ps : Powers α) (c : α →₀ ℤ) : Prop :=
  ∃ keys : List α, keys.Nodup ∧ (∀ a, a ∈ keys ↔ c a ≠ 0) ∧ ps = weigh c keys

variable {ps qs : Powers α} {c d : α →₀ ℤ}

theorem weigh_congr {keys : List α} (h : ∀ a ∈ keys, c a = d a) : weigh c keys = weigh d keys :=
  List.map_congr_left fun a ha => by rw [h a ha]

theorem Counts.tallies (h : Counts ps c) : Tallies ps c := by
  obtain ⟨keys, hnodup, hmem, hps⟩ := h
  exact ⟨keys, hnodup, fun a => (hmem a).mpr, hps⟩

theorem counts_nil : Counts ([] : Powers α) 0 :=
  ⟨[], List.nodup_nil, fun a => by simp, rfl⟩

theorem counts_single (a : α) : Counts [(a, .whole 1)] (single a 1) := by
  classical
  refine ⟨[a], List.nodup_singleton a, fun b => ?_, ?_⟩
  · rw [List.mem_singleton, Finsupp.single_apply, ite_ne_right_iff, eq_comm]
    exact ⟨fun h => ⟨h, one_ne_zero⟩, And.left⟩
  · rw [weigh, List.map_singleton, Finsupp.single_eq_same]

/-! ## Products -/

theorem Tallies.nonZero (h : Tallies ps c) : Counts (nonZero ps) c := by
  obtain ⟨keys, hnodup, hmem, rfl⟩ := h
  refine ⟨keys.filter fun a => c a != 0, hnodup.filter _, fun a => ?_, ?_⟩
  · rw [List.mem_filter, bne_iff_ne]
    exact ⟨And.right, fun h => ⟨hmem a h, h⟩⟩
  · rw [Powers.nonZero, weigh, List.filter_map]
    rfl

variable [DecidableEq α]

/-- A raised exponent stays where it is, or comes to the end. -/
theorem raise_weigh (a : α) (k : ℤ) {keys : List α} (hnodup : keys.Nodup) (h : a ∉ keys → c a = 0) :
    raise a (.whole k) (weigh c keys) =
      .ok (weigh (c + single a k) (if a ∈ keys then keys else keys ++ [a])) := by
  induction keys with
  | nil =>
    rw [if_neg List.not_mem_nil, List.nil_append, weigh, weigh, List.map_nil, List.map_singleton,
      Finsupp.add_apply, Finsupp.single_eq_same, h List.not_mem_nil, zero_add]
    rfl
  | cons b keys ih =>
    obtain ⟨hb, hnodup⟩ := List.nodup_cons.mp hnodup
    rw [weigh, List.map_cons, raise]
    by_cases hba : b = a
    · subst hba
      have hrest : weigh c keys = weigh (c + single b k) keys :=
        weigh_congr fun e he => by
          rw [Finsupp.add_apply, Finsupp.single_eq_of_ne (ne_of_mem_of_not_mem he hb), add_zero]
      rw [if_pos rfl, if_pos List.mem_cons_self]
      show Except.ok ((b, Amount.whole (c b + k)) :: weigh c keys) = _
      rw [hrest, weigh, weigh, List.map_cons, Finsupp.add_apply, Finsupp.single_eq_same]
    · have hmem : a ∈ b :: keys ↔ a ∈ keys := by
        rw [List.mem_cons, or_iff_right (Ne.symm hba)]
      have ih := ih hnodup fun ha => h (mt hmem.mp ha)
      rw [if_neg hba]
      show (do return (b, Amount.whole (c b)) :: (← raise a (.whole k) (weigh c keys))) = _
      have hhead : (c + single a k) b = c b := by
        rw [Finsupp.add_apply, Finsupp.single_eq_of_ne hba, add_zero]
      rw [ih, ← hhead]
      by_cases ha : a ∈ keys
      · rw [if_pos ha, if_pos (hmem.mpr ha)]
        rfl
      · rw [if_neg ha, if_neg (mt hmem.mp ha)]
        rfl

theorem Tallies.raise (h : Tallies ps c) (a : α) (k : ℤ) :
    ∃ qs, raise a (.whole k) ps = .ok qs ∧ Tallies qs (c + single a k) := by
  obtain ⟨keys, hnodup, hmem, rfl⟩ := h
  refine ⟨_, raise_weigh a k hnodup fun ha => not_not.mp (mt (hmem a) ha), _, ?_, fun b hb => ?_, rfl⟩
  · split
    · exact hnodup
    · next ha => exact hnodup.append (List.nodup_singleton a) (List.disjoint_singleton.mpr ha)
  · by_cases hba : b = a
    · subst hba
      split
      · assumption
      · exact List.mem_append_right _ List.mem_cons_self
    · rw [Finsupp.add_apply, Finsupp.single_eq_of_ne hba, add_zero] at hb
      split
      · exact hmem b hb
      · exact List.mem_append_left _ (hmem b hb)

theorem sum_keys {M : Type} [AddCommMonoid M] {keys : List α} (hnodup : keys.Nodup)
    (hmem : ∀ a, c a ≠ 0 → a ∈ keys) (g : α → ℤ → M) (h0 : ∀ a, g a 0 = 0) :
    (keys.map fun a => g a (c a)).sum = c.sum g := by
  have hsub : c.support ⊆ keys.toFinset := fun a ha =>
    List.mem_toFinset.mpr (hmem a (Finsupp.mem_support_iff.mp ha))
  rw [Finsupp.sum_of_support_subset c hsub g fun a _ => h0 a]
  exact (List.sum_toFinset _ hnodup).symm

/-- Each factor adds its exponent. -/
theorem mul_weigh (keys : List α) (h : Counts ps c) :
    ∃ rs, mul ps (weigh d keys) = .ok rs ∧
      Counts rs (c + (keys.map fun a => single a (d a)).sum) := by
  induction keys generalizing ps c with
  | nil => exact ⟨ps, rfl, by rwa [List.map_nil, List.sum_nil, add_zero]⟩
  | cons a keys ih =>
    obtain ⟨qs, hqs, hcounts⟩ := h.tallies.raise a (d a)
    obtain ⟨rs, hrs, hall⟩ := ih hcounts.nonZero
    refine ⟨rs, ?_, ?_⟩
    · show (do
        let acc ← (do return nonZero (← raise a (.whole (d a)) ps))
        mul acc (weigh d keys)) = _
      rw [hqs]
      exact hrs
    · rwa [List.map_cons, List.sum_cons, ← add_assoc]

theorem Counts.mul (hp : Counts ps c) (hq : Counts qs d) :
    ∃ rs, mul ps qs = .ok rs ∧ Counts rs (c + d) := by
  obtain ⟨keys, hnodup, hmem, rfl⟩ := hq
  have := mul_weigh (d := d) keys hp
  rwa [sum_keys hnodup (fun a => (hmem a).mpr) single fun a => Finsupp.single_zero a,
    Finsupp.sum_single] at this

omit [DecidableEq α] in
theorem Counts.pow (h : Counts ps c) {k : ℤ} (hk : k ≠ 0) :
    ∃ qs, pow ps (.whole k) = .ok qs ∧ Counts qs (k • c) := by
  obtain ⟨keys, hnodup, hmem, rfl⟩ := h
  refine ⟨weigh (k • c) keys, ?_, keys, hnodup, fun a => ?_, rfl⟩
  · have hstep : (fun p : α × Amount => do return (p.1, ← p.2.mul (.whole k))) ∘
        (fun a => (a, Amount.whole (c a))) =
        fun a => (pure (a, Amount.whole ((k • c) a)) : Except NumberFault (α × Amount)) := by
      funext a
      rw [Finsupp.smul_apply, smul_eq_mul, mul_comm]
      rfl
    rw [Powers.pow, weigh, List.mapM_map, hstep, List.mapM_pure]
    rfl
  · rw [hmem, Finsupp.smul_apply, smul_eq_mul, mul_ne_zero_iff_left hk]

omit [DecidableEq α] in
theorem Counts.inverse (h : Counts ps c) : ∃ qs, inverse ps = .ok qs ∧ Counts qs (-c) := by
  rw [← neg_one_zsmul]
  exact h.pow (neg_ne_zero.mpr one_ne_zero)

theorem Counts.div (hp : Counts ps c) (hq : Counts qs d) :
    ∃ rs, div ps qs = .ok rs ∧ Counts rs (c - d) := by
  obtain ⟨inv, hinv, hcounts⟩ := hq.inverse
  rw [sub_eq_add_neg, Powers.div, hinv]
  exact hp.mul hcounts

/-! ## Equality -/

omit [DecidableEq α] in
theorem Counts.isEmpty_iff (h : Counts ps c) : ps.isEmpty = true ↔ c = 0 := by
  obtain ⟨keys, -, hmem, rfl⟩ := h
  rw [List.isEmpty_iff, weigh, List.map_eq_nil_iff, List.eq_nil_iff_forall_not_mem, Finsupp.ext_iff]
  simp only [hmem, not_not, Finsupp.coe_zero, Pi.zero_apply]

/-- Products are the same, whatever the order, if their exponents are. -/
theorem Counts.same_iff (hp : Counts ps c) (hq : Counts qs d) : same ps qs = true ↔ c = d := by
  obtain ⟨keys, hnodup, hmem, rfl⟩ := hp
  obtain ⟨keys', hnodup', hmem', rfl⟩ := hq
  have hany : ∀ a, ((weigh d keys').any fun q => a == q.1 && (Amount.whole (c a)).same q.2) = true ↔
      a ∈ keys' ∧ c a = d a := by
    intro a
    have hsame : ∀ b, (Amount.whole (c a)).same (.whole (d b)) = true ↔ c a = d b := fun b =>
      beq_iff_eq.trans sub_eq_zero
    simp only [weigh, List.any_map, List.any_eq_true, Function.comp_apply, Bool.and_eq_true,
      beq_iff_eq, hsame]
    exact ⟨fun ⟨b, hb, hab, h⟩ => by subst hab; exact ⟨hb, h⟩, fun ⟨hb, h⟩ => ⟨a, hb, rfl, h⟩⟩
  have hall : same (weigh c keys) (weigh d keys') = true ↔
      keys.length = keys'.length ∧ ∀ a ∈ keys, a ∈ keys' ∧ c a = d a := by
    rw [same, Bool.and_eq_true, beq_iff_eq, weigh, weigh, List.length_map, List.length_map,
      List.all_map, List.all_eq_true]
    simp only [Function.comp_apply]
    exact and_congr_right fun _ => forall₂_congr fun a _ => hany a
  rw [hall]
  constructor
  · rintro ⟨hlength, hkeys⟩
    have hperm : keys.Perm keys' := (hnodup.subperm fun a ha => (hkeys a ha).1).perm_of_length_le
      hlength.ge
    ext a
    by_cases ha : a ∈ keys
    · exact (hkeys a ha).2
    · rw [not_not.mp (mt (hmem a).mpr ha), not_not.mp (mt (hmem' a).mpr (mt hperm.mem_iff.mpr ha))]
  · rintro rfl
    have hperm : keys.Perm keys' :=
      (List.perm_ext_iff_of_nodup hnodup hnodup').mpr fun a => (hmem a).trans (hmem' a).symm
    exact ⟨hperm.length_eq, fun a ha => ⟨hperm.mem_iff.mp ha, rfl⟩⟩

end Immittance.Powers
