import Mathlib
import Immittance.Proofs.Impedance.Reciprocal
import Immittance.Proofs.Impedance.Rounded

/-!
# When a sum of reciprocals vanishes

The evaluation of a parallel group whose members have moderate impedances keeps within its roundings of
the sum of the inverses. So it fails only if one of the impedances is zero, or the inverses cancel each
other up to the roundings.
-/

set_option autoImplicit false

namespace Immittance

open Binary Circuit

namespace Phasor

theorem isFinite_of_no_reciprocal {z : Phasor Float} (h : z.reciprocal? = none) : z.IsFinite := by
  obtain ⟨hre, him⟩ := reciprocal?_eq_none_iff.mp h
  exact ⟨hre.1, him.1⟩

/-- What has no reciprocal need not be zero, but its square vanishes. -/
theorem number_le_of_no_reciprocal {z : Phasor Float} (h : z.reciprocal? = none) :
    ‖z.number‖ ≤ 2 ^ (-537 : ℤ) := by
  obtain ⟨hre, him⟩ := reciprocal?_eq_none_iff.mp h
  have hsquare : z.values.square ≤ (2 ^ (-537 : ℤ)) ^ 2 := by
    calc z.values.square = (ofFloat z.re).value ^ 2 + (ofFloat z.im).value ^ 2 := by
          rw [values_square, sq, sq]
      _ ≤ 2 ^ (-1075 : ℤ) + 2 ^ (-1075 : ℤ) := add_le_add hre.2 him.2
      _ = (2 ^ (-537 : ℤ)) ^ 2 := by
          rw [← two_mul, ← zpow_one_add₀ (by norm_num), ← zpow_natCast, ← zpow_mul]
          rfl
  have hcast := (Rat.cast_le (K := ℝ)).mpr hsquare
  rw [← normSq_toComplex, Rat.cast_pow, Rat.cast_zpow, Rat.cast_ofNat,
    Complex.normSq_eq_norm_sq] at hcast
  exact (pow_le_pow_iff_left₀ (norm_nonneg _) (by positivity) two_ne_zero).mp hcast

theorem exists_reciprocal_of_moderate {z : Phasor Float} (h : z.Moderate) (h0 : z.number ≠ 0) :
    ∃ y, z.reciprocal? = some y := by
  rw [← Option.ne_none_iff_exists']
  intro hnone
  have hlt : (2 : ℝ) ^ (-537 : ℤ) < 2 ^ (-480 : ℤ) :=
    zpow_lt_zpow_right₀ (by norm_num) (by norm_num)
  exact absurd (number_le_of_no_reciprocal hnone) (not_le.mpr (hlt.trans_le (le_number h h0)))

end Phasor

open Phasor

/-! ## Groups -/

theorem sum_error {r : ℝ} {zs ys : List (Phasor Float)}
    (h : List.Forall₂ (fun z y => ‖y.number - z.number⁻¹‖ ≤ r * ‖z.number⁻¹‖) zs ys) :
    ‖(ys.map number).sum - (zs.map fun z => z.number⁻¹).sum‖ ≤
      r * (zs.map fun z => ‖z.number⁻¹‖).sum := by
  induction h with
  | nil => simp
  | cons hy _ ih =>
    simp only [List.map_cons, List.sum_cons]
    rw [add_sub_add_comm, mul_add]
    exact (norm_add_le _ _).trans (add_le_add hy ih)

theorem sum_size {r : ℝ} {zs ys : List (Phasor Float)}
    (h : List.Forall₂ (fun z y => ‖y.number - z.number⁻¹‖ ≤ r * ‖z.number⁻¹‖) zs ys) :
    (ys.map fun y => ‖y.number‖).sum ≤ (1 + r) * (zs.map fun z => ‖z.number⁻¹‖).sum := by
  induction h with
  | nil => simp
  | @cons z y _ _ hy _ ih =>
    simp only [List.map_cons, List.sum_cons]
    rw [mul_add]
    apply add_le_add _ ih
    have htri := norm_le_norm_add_norm_sub' y.number z.number⁻¹
    linarith

theorem forall₂_admits {f : Float} {cs : List (Circuit Float)} {zs ys : List (Phasor Float)}
    (hzs : List.Forall₂ (Evaluates f) cs zs)
    (hys : List.Forall₂ (fun z y => z.reciprocal? = some y) zs ys) :
    List.Forall₂ (Admits f) cs ys := by
  induction hzs generalizing ys with
  | nil =>
    cases hys
    exact .nil
  | cons hz _ ih =>
    cases hys with
    | cons hy hys => exact .cons ⟨_, hz, hy⟩ (ih hys)

/-- If the group has no impedance, but its members have, and reciprocals of them, then the sum of the
reciprocals has none. -/
theorem no_reciprocal_of_fault {f : Float} {cs : List (Circuit Float)} {e : Fault Float}
    (h : (Circuit.group .parallel cs).impedance f = .error e) {y : Phasor Float}
    {ys : List (Phasor Float)} (hys : List.Forall₂ (Admits f) cs (y :: ys)) :
    (ys.foldl Phasor.add y).reciprocal? = none := by
  cases hz : (ys.foldl Phasor.add y).reciprocal? with
  | none => rfl
  | some z =>
    rw [parallel_impedance_eq_ok_iff.mpr ⟨y, ys, hys, hz⟩] at h
    exact absurd h (by simp)

theorem least_size {zs : List (Phasor Float)} (hne : zs ≠ []) (hmod : ∀ z ∈ zs, z.Moderate)
    (h0 : ∀ z ∈ zs, z.number ≠ 0) :
    2 ^ (-537 : ℤ) ≤ 2 ^ (-53 : ℤ) * (zs.map fun z => ‖z.number⁻¹‖).sum := by
  obtain ⟨z, zs, rfl⟩ := List.exists_cons_of_ne_nil hne
  have hz := (inverse_bounds (hmod z List.mem_cons_self) (h0 z List.mem_cons_self)).1
  have hrest : 0 ≤ (zs.map fun z => ‖z.number⁻¹‖).sum := List.sum_nonneg (by simp)
  rw [List.map_cons, List.sum_cons]
  calc (2 : ℝ) ^ (-537 : ℤ) ≤ 2 ^ (-53 + -481 : ℤ) :=
        zpow_le_zpow_right₀ (by norm_num) (by norm_num)
    _ = 2 ^ (-53 : ℤ) * 2 ^ (-481 : ℤ) := zpow_add₀ (by norm_num) _ _
    _ ≤ 2 ^ (-53 : ℤ) * (‖z.number⁻¹‖ + (zs.map fun z => ‖z.number⁻¹‖).sum) :=
        mul_le_mul_of_nonneg_left (hz.trans (le_add_of_nonneg_right hrest)) (by positivity)

/-- The inverses of the impedances cancel each other, up to the roundings that a sum of their
reciprocals makes. -/
theorem cancel_of_no_reciprocal {zs : List (Phasor Float)} {y : Phasor Float}
    {ys : List (Phasor Float)} (hmod : ∀ z ∈ zs, z.Moderate) (h0 : ∀ z ∈ zs, z.number ≠ 0)
    (hys : List.Forall₂ (fun z y => z.reciprocal? = some y) zs (y :: ys))
    (h : (ys.foldl Phasor.add y).reciprocal? = none) :
    ‖(zs.map fun z => z.number⁻¹).sum‖ ≤
      roundings (zs.length + 6) * (zs.map fun z => ‖z.number⁻¹‖).sum := by
  have hclose : List.Forall₂ (fun z y => ‖y.number - z.number⁻¹‖ ≤ roundings 6 * ‖z.number⁻¹‖)
      zs (y :: ys) := by
    have hboth : ∀ z ∈ zs, z.Moderate ∧ z.number ≠ 0 := fun z hz => ⟨hmod z hz, h0 z hz⟩
    apply ((List.forall₂_and_left _ _).mpr ⟨hboth, hys⟩).imp
    rintro z y ⟨⟨hz, hz0⟩, hy⟩
    exact reciprocal_error hz hz0 hy
  have hne : zs ≠ [] := by
    rintro rfl
    cases hys
  have hlength : zs.length = ys.length + 1 := hys.length_eq
  have htotal := foldl_number_error (isFinite_of_no_reciprocal h)
  have hvanishes := (number_le_of_no_reciprocal h).trans (least_size hne hmod h0)
  have hsum := sum_error hclose
  have hsize := sum_size hclose
  rw [List.map_cons, List.sum_cons] at hsum hsize
  generalize (ys.foldl Phasor.add y).number = total at htotal hvanishes
  generalize y.number + (ys.map number).sum = ysum at htotal hsum
  generalize (zs.map fun z => z.number⁻¹).sum = zsum at hsum ⊢
  generalize (zs.map fun z => ‖z.number⁻¹‖).sum = size at hvanishes hsum hsize ⊢
  have hpos : 0 ≤ size := nonneg_of_mul_nonneg_right ((norm_nonneg _).trans hvanishes) (by positivity)
  -- what is left of the total, what the sum was off by, and what the reciprocals were
  calc ‖zsum‖ = ‖total - (total - ysum) - (ysum - zsum)‖ := by congr 1; ring
    _ ≤ ‖total‖ + ‖total - ysum‖ + ‖ysum - zsum‖ :=
        (norm_sub_le _ _).trans (add_le_add_left (norm_sub_le _ _) _)
    _ ≤ 2 ^ (-53 : ℤ) * size + roundings ys.length * ((1 + roundings 6) * size) +
          roundings 6 * size := by
        have hfold := htotal.trans (mul_le_mul_of_nonneg_left hsize (roundings_nonneg _))
        exact add_le_add (add_le_add hvanishes hfold) hsum
    _ = (roundings (ys.length + 6) + 2 ^ (-53 : ℤ)) * size := by
        rw [roundings_add]
        ring
    _ ≤ roundings (zs.length + 6) * size := by
        apply mul_le_mul_of_nonneg_right _ hpos
        rw [hlength, add_right_comm, roundings_succ (ys.length + 6), mul_add, mul_one]
        have hnonneg : 0 ≤ roundings (ys.length + 6) * 2 ^ (-53 : ℤ) :=
          mul_nonneg (roundings_nonneg _) (by positivity)
        linarith

/-- A parallel group whose members have impedances, moderate ones, fails only if one of them is zero or
their inverses cancel each other up to the roundings. -/
theorem cancel_of_fault {f : Float} {cs : List (Circuit Float)} {zs : List (Phasor Float)}
    {e : Fault Float} (hzs : List.Forall₂ (Evaluates f) cs zs) (hmod : ∀ z ∈ zs, z.Moderate)
    (h : (Circuit.group .parallel cs).impedance f = .error e) :
    (∃ z ∈ zs, z.number = 0) ∨ ‖(zs.map fun z => z.number⁻¹).sum‖ ≤
      roundings (zs.length + 6) * (zs.map fun z => ‖z.number⁻¹‖).sum := by
  by_cases hzero : ∃ z ∈ zs, z.number = 0
  · exact Or.inl hzero
  · right
    have h0 : ∀ z ∈ zs, z.number ≠ 0 := fun z hz hz0 => hzero ⟨z, hz, hz0⟩
    obtain ⟨ys, hys⟩ := exists_forall₂_iff.mpr fun z hz =>
      exists_reciprocal_of_moderate (hmod z hz) (h0 z hz)
    cases ys with
    | nil =>
      cases hys
      simp
    | cons y ys =>
      exact cancel_of_no_reciprocal hmod h0 hys
        (no_reciprocal_of_fault h (forall₂_admits hzs hys))

theorem moderate_reciprocal_iff {z : Phasor Float} (h : z.Moderate) :
    z.reciprocal? = none ↔ z.number = 0 := by
  constructor
  · intro hnone
    by_contra h0
    obtain ⟨y, hy⟩ := exists_reciprocal_of_moderate h h0
    rw [hnone] at hy
    exact absurd hy (by simp)
  · intro h0
    obtain ⟨hre, him⟩ := number_eq_zero_iff.mp h0
    exact reciprocal?_of_isZero ((beq_zero_iff_value h.1.finite).mpr hre)
      ((beq_zero_iff_value h.2.finite).mpr him)

/-- A reciprocal does not exist if the squares of both parts vanish, which for moderate parts means that
they are zero. A parallel group of resistors of one sign has an impedance unless the square of a
resistance vanishes or all of them overflow. One of members with moderate impedances fails only if an
impedance is zero or their inverses cancel each other up to the roundings of their sum. -/
theorem division_by_zero (f : Float) :
    (∀ z : Phasor Float, z.IsFinite → (z.reciprocal? = none ↔
      (ofFloat z.re).value ^ 2 ≤ 2 ^ (-1075 : ℤ) ∧ (ofFloat z.im).value ^ 2 ≤ 2 ^ (-1075 : ℤ))) ∧
    (∀ z : Phasor Float, z.Moderate → (z.reciprocal? = none ↔ z.number = 0)) ∧
    (∀ rs : List Float, (∀ r ∈ rs, r.isFinite = true) → ((∀ r ∈ rs, 0 < r) ∨ ∀ r ∈ rs, r < 0) →
      ((∃ z, (Circuit.group .parallel (rs.map fun r => .part ⟨.resistor, r⟩)).impedance f = .ok z) ↔
        (∀ r ∈ rs, 2 ^ (-1075 : ℤ) < (ofFloat r).value ^ 2) ∧
        ∃ r ∈ rs, (ofFloat r).value ^ 2 < overflow)) ∧
    ∀ cs zs e, List.Forall₂ (Evaluates f) cs zs → (∀ z ∈ zs, z.Moderate) →
      (Circuit.group .parallel cs).impedance f = .error e →
      (∃ z ∈ zs, z.number = 0) ∨ ‖(zs.map fun z => z.number⁻¹).sum‖ ≤
        roundings (zs.length + 6) * (zs.map fun z => ‖z.number⁻¹‖).sum := by
  refine ⟨?vanishing, ?moderate, ?resistors, ?members⟩
  case vanishing =>
    intro z hz
    rw [Phasor.reciprocal?_eq_none_iff, and_iff_right hz.1, and_iff_right hz.2]
  case moderate => exact fun z hz => moderate_reciprocal_iff hz
  case resistors => exact fun rs hr hsign => resistors_of_one_sign hr hsign
  case members => exact fun cs zs e hzs hmod h => cancel_of_fault hzs hmod h

theorem division_by_zero_of_pairs :
    let r (v : Float) : Circuit Float := .part ⟨.resistor, v⟩
    let z : Phasor Float := ⟨0, -0⟩
    let zs : List (Phasor Float) := [⟨2, 0⟩, ⟨-2, 0⟩]
    (z.IsFinite ∧ z.Moderate ∧ z.number = 0 ∧ z.reciprocal? = none ∧
      (ofFloat z.re).value ^ 2 ≤ 2 ^ (-1075 : ℤ)) ∧
    ((∀ v ∈ [(2 : Float), 3], v.isFinite = true) ∧ (∀ v ∈ [(2 : Float), 3], 0 < v) ∧
      (∃ z, (Circuit.group .parallel [r 2, r 3]).impedance 50 = .ok z) ∧
      ∀ v ∈ [(2 : Float), 3], 2 ^ (-1075 : ℤ) < (ofFloat v).value ^ 2) ∧
    List.Forall₂ (Evaluates 50) [r 2, r (-2)] zs ∧ (∀ z ∈ zs, z.Moderate) ∧
    (∃ e, (Circuit.group .parallel [r 2, r (-2)]).impedance 50 = .error e) ∧
    ((∃ z ∈ zs, z.number = 0) ∨ ‖(zs.map fun z => z.number⁻¹).sum‖ ≤
      roundings (zs.length + 6) * (zs.map fun z => ‖z.number⁻¹‖).sum) := by
  intro r z zs
  have hzero : Binary.Moderate 0 := moderate_of_isZero isZero_zero
  have htwo : Binary.Moderate 2 := by
    have hparts : ofFloat 2 = .finite false (2 ^ 52) (-51) := by decide +kernel
    exact moderate_of_parts hparts le_rfl (by norm_num) (by norm_num)
  have hmod : ∀ z ∈ zs, z.Moderate := by
    simp only [zs, List.forall_mem_cons]
    exact ⟨⟨htwo, hzero⟩, ⟨htwo.neg, hzero⟩, by simp⟩
  have hz0 : z.number = 0 := by
    have h0 := (beq_zero_iff_value hzero.finite).mp isZero_zero
    rw [number_eq_zero_iff, value_neg, h0, neg_zero]
    exact ⟨rfl, rfl⟩
  have hfinite : ∀ v ∈ [(2 : Float), 3], v.isFinite = true := by decide +kernel
  have hsign : ∀ v ∈ [(2 : Float), 3], 0 < v := by decide +kernel
  have hok : ((Circuit.group .parallel [r 2, r 3]).impedance 50).isOk = true := by decide +kernel
  have hfault : ((Circuit.group .parallel [r 2, r (-2)]).impedance 50).isOk = false := by
    decide +kernel
  have hevaluates : List.Forall₂ (Evaluates 50) [r 2, r (-2)] zs := .cons rfl (.cons rfl .nil)
  obtain ⟨e, he⟩ := exists_error_of_isOk hfault
  obtain ⟨hvanishing, hmoderate, hresistors, hmembers⟩ := division_by_zero 50
  have hzf : z.IsFinite := ⟨hzero.finite, hzero.neg.finite⟩
  have hnone := (hmoderate z ⟨hzero, hzero.neg⟩).mpr hz0
  have hpair := (hresistors [2, 3] hfinite (Or.inl hsign)).mp (exists_ok_of_isOk hok)
  exact ⟨⟨hzf, ⟨hzero, hzero.neg⟩, hz0, hnone, ((hvanishing z hzf).mp hnone).1⟩,
    ⟨hfinite, hsign, exists_ok_of_isOk hok, hpair.1⟩, hevaluates, hmod, ⟨e, he⟩,
    hmembers _ zs e hevaluates hmod he⟩

/-- What is not zero may have no reciprocal, and resistors none of which is zero no impedance, whether
their squares vanish or overflow or a rounding takes one of them away. -/
theorem division_by_no_zero :
    let r (v : Float) : Circuit Float := .part ⟨.resistor, v⟩
    let z : Phasor Float := ⟨1e-200, 0⟩
    let zs : List (Phasor Float) := [⟨1, 0⟩, ⟨1e20, 0⟩, ⟨-1, 0⟩]
    (z.IsFinite ∧ z.number ≠ 0 ∧ z.reciprocal? = none) ∧
    (∃ e, (Circuit.group .parallel [r 1e200, r 1e200]).impedance 50 = .error e) ∧
    List.Forall₂ (Evaluates 50) [r 1, r 1e20, r (-1)] zs ∧
    (∀ z ∈ zs, z.IsFinite ∧ z.number ≠ 0) ∧ (zs.map fun z => z.number⁻¹).sum ≠ 0 ∧
    ∃ e, (Circuit.group .parallel [r 1, r 1e20, r (-1)]).impedance 50 = .error e := by
  intro r z zs
  have hsmall : ofFloat 1e-200 = .finite false 6894565328877484 (-717) := by decide +kernel
  have hone : (ofFloat 1).value = 1 := by
    rw [show ofFloat 1 = .finite false 4503599627370496 (-52) by decide +kernel]
    norm_num [value, factor]
  have hlarge : (ofFloat 1e20).value = 100000000000000000000 := by
    rw [show ofFloat 1e20 = .finite false 6103515625000000 14 by decide +kernel]
    norm_num [value, factor]
  have hminus : (ofFloat (-1)).value = -1 := by rw [value_neg, hone]
  have hoverflow : ((Circuit.group .parallel [r 1e200, r 1e200]).impedance 50).isOk = false := by
    decide +kernel
  have hlost : ((Circuit.group .parallel [r 1, r 1e20, r (-1)]).impedance 50).isOk = false := by
    decide +kernel
  refine ⟨⟨?_, ?_, ?_⟩, exists_error_of_isOk hoverflow, ?_, ?_, ?_, exists_error_of_isOk hlost⟩
  · exact ⟨isFinite_iff.mpr ⟨_, _, _, hsmall⟩, isFinite_of_beq_zero isZero_zero⟩
  · rw [ne_eq, number_resistance, hsmall]
    norm_num [value, factor]
  · decide +kernel
  · exact .cons rfl (.cons rfl (.cons rfl .nil))
  · have hfinite : ∀ z ∈ zs, z.re.isFinite = true ∧ z.im.isFinite = true := by decide +kernel
    have hne : ∀ z ∈ zs, z.number ≠ 0 := by
      simp only [zs, List.forall_mem_cons, number_resistance, hone, hlarge, hminus]
      norm_num
    exact fun z hz => ⟨hfinite z hz, hne z hz⟩
  · simp only [zs, List.map_cons, List.map_nil, List.sum_cons, List.sum_nil, number_resistance, hone,
      hlarge, hminus]
    norm_num

end Immittance
