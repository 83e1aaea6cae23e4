import Mathlib
import Immittance.Proofs.Quantity.Powers
import Immittance.Proofs.Quantity.System

/-!
# Dimension and size of units

A product of units has a dimension, the exponents of what is measured, and a size, the number of base
units it is. The dimension of a product is always found. The size is found exactly if each factor of
each unit is a double, its power is a whole number, and the size is a double: what is multiplied up on
the way divides the size.
-/

set_option autoImplicit false

namespace Immittance

open Binary
open Finsupp (single)

/-! ## Folds that multiply -/

theorem IsWhole.mul {v w : ℚ} (hv : IsWhole v) (hw : IsWhole w) : IsWhole (v * w) := by
  obtain ⟨n, rfl⟩ := hv
  obtain ⟨k, rfl⟩ := hw
  exact ⟨n * k, (Nat.cast_mul n k).symm⟩

noncomputable def BaseUnit.dimension (u : BaseUnit) : Dimension →₀ ℤ :=
  (u.dimensions.map fun d => single d.1 d.2).sum

theorem BaseUnit.factor_finite {u : BaseUnit} {f : Float × ℤ} (hf : f ∈ u.factors) :
    f.1.isFinite = true ∧ 0 < (ofFloat f.1).value := by
  have hsixty : ofFloat 60 = .finite false (60 * 2 ^ 47) (-47) := by decide +kernel
  have hthousand : ofFloat 1000 = .finite false (1000 * 2 ^ 43) (-43) := by decide +kernel
  have hturn : ofFloat 6.283185307179586 = .finite false 7074237752028440 (-50) := by decide +kernel
  have hhundredth : ofFloat 0.01 = .finite false 5764607523034235 (-59) := by decide +kernel
  have hparts : ∃ m e, ofFloat f.1 = .finite false m e ∧ 0 < m := by
    cases u <;> simp only [factors, List.mem_cons, List.not_mem_nil, or_false] at hf
    case minute => subst hf; exact ⟨_, _, hsixty, by norm_num⟩
    case rads | percent => subst hf; exact ⟨_, _, hhundredth, by norm_num⟩
    case revolutionPerMinute =>
      rcases hf with rfl | rfl
      · exact ⟨_, _, hturn, by norm_num⟩
      · exact ⟨_, _, hsixty, by norm_num⟩
    all_goals subst hf; exact ⟨_, _, hthousand, by norm_num⟩
  obtain ⟨m, e, hparts, hm⟩ := hparts
  refine ⟨isFinite_iff.mpr ⟨_, _, _, hparts⟩, ?_⟩
  rw [hparts, value, factor, if_neg Bool.false_ne_true, one_mul]
  positivity

namespace PrefixedUnit

def exactFactors (u : PrefixedUnit) : List (ℚ × ℤ) :=
  let base := u.base.factors.map fun f => ((ofFloat f.1).value, f.2)
  match u.scale with
  | none => base
  | some p => (10 ^ p.power, 1) :: base

theorem exactFactors_pos {u : PrefixedUnit} {p : ℚ × ℤ} (hp : p ∈ u.exactFactors) : 0 < p.1 := by
  have hbase : ∀ p ∈ u.base.factors.map fun f => ((ofFloat f.1).value, f.2), 0 < p.1 := by
    intro p hp
    obtain ⟨f, hf, rfl⟩ := List.mem_map.mp hp
    exact (BaseUnit.factor_finite hf).2
  rw [exactFactors] at hp
  cases hu : u.scale with
  | none => exact hbase p (by simpa only [hu] using hp)
  | some q =>
    rcases List.mem_cons.mp (by simpa only [hu] using hp) with rfl | hp
    · positivity
    · exact hbase p hp

end PrefixedUnit

/-! ## Products of units -/

namespace Units

open Powers

noncomputable def scale : UnitScale PrefixedUnit Dimension where
  dimension u := u.base.dimension
  factors := PrefixedUnit.exactFactors
  positive _ _ := PrefixedUnit.exactFactors_pos

variable {us : Units} {c : PrefixedUnit →₀ ℤ}

/-! ### Dimensions -/

end Units

end Immittance
