import Mathlib
import Immittance.Proofs.Decimal.Extremes
import Immittance.Proofs.Impedance.Exact

/-!
# Phasors as rounded numbers

A phasor of doubles is a complex number, and the sum of two of them the sum of the numbers up to one
rounding. The reciprocal makes six roundings of the inverse, provided that the parts are zero, or neither
so small nor so large that their squares are not close to the exact ones.
-/

set_option autoImplicit false

namespace Immittance

open Binary Circuit

/-! ## The error of roundings -/

noncomputable def roundings (n : ℕ) : ℝ := (1 + 2 ^ (-53 : ℤ)) ^ n - 1

theorem roundings_zero : roundings 0 = 0 := by
  rw [roundings, pow_zero, sub_self]

theorem roundings_succ (n : ℕ) :
    roundings (n + 1) = roundings n * (1 + 2 ^ (-53 : ℤ)) + 2 ^ (-53 : ℤ) := by
  rw [roundings, roundings, pow_succ]
  ring

theorem roundings_add (m n : ℕ) :
    roundings (m + n) = roundings m * (1 + roundings n) + roundings n := by
  rw [roundings, roundings, roundings, pow_add]
  ring

theorem roundings_nonneg (n : ℕ) : 0 ≤ roundings n := by
  rw [roundings, sub_nonneg]
  exact one_le_pow₀ (le_add_of_nonneg_right (by positivity))

theorem le_roundings (n : ℕ) : n * 2 ^ (-53 : ℤ) ≤ roundings n := by
  have h := one_add_mul_le_pow (show (-2 : ℝ) ≤ 2 ^ (-53 : ℤ) by norm_num) n
  rw [roundings]
  linarith

theorem norm_le_of_parts {z w : ℂ} (hre : |z.re| ≤ |w.re|) (him : |z.im| ≤ |w.im|) : ‖z‖ ≤ ‖w‖ := by
  rw [Complex.norm_def, Complex.norm_def, Complex.normSq_apply, Complex.normSq_apply]
  apply Real.sqrt_le_sqrt
  exact add_le_add (abs_le_iff_mul_self_le.mp hre) (abs_le_iff_mul_self_le.mp him)

/-- Parts that are close to within a part `c` of them and a distance `d` each. -/
theorem norm_le_of_close {z w : ℂ} {c d : ℝ} (hc : 0 ≤ c) (hd : 0 ≤ d)
    (hre : |z.re| ≤ c * |w.re| + d) (him : |z.im| ≤ c * |w.im| + d) : ‖z‖ ≤ c * ‖w‖ + 2 * d := by
  have habs : ‖(⟨|w.re|, |w.im|⟩ : ℂ)‖ ≤ ‖w‖ :=
    norm_le_of_parts (abs_abs w.re).le (abs_abs w.im).le
  have hdist : ‖(⟨d, d⟩ : ℂ)‖ ≤ 2 * d := by
    have h := Complex.norm_le_abs_re_add_abs_im ⟨d, d⟩
    rw [abs_of_nonneg hd] at h
    linarith
  have hsum : ‖z‖ ≤ ‖(c : ℂ) * ⟨|w.re|, |w.im|⟩ + ⟨d, d⟩‖ := by
    apply norm_le_of_parts
    · rw [Complex.add_re, Complex.re_ofReal_mul]
      exact hre.trans (le_abs_self _)
    · rw [Complex.add_im, Complex.im_ofReal_mul]
      exact him.trans (le_abs_self _)
  calc ‖z‖ ≤ ‖(c : ℂ) * ⟨|w.re|, |w.im|⟩‖ + ‖(⟨d, d⟩ : ℂ)‖ := hsum.trans (norm_add_le _ _)
    _ ≤ c * ‖w‖ + 2 * d := by
      rw [norm_mul, Complex.norm_real, Real.norm_of_nonneg hc]
      exact add_le_add (mul_le_mul_of_nonneg_left habs hc) hdist

namespace Phasor

def IsFinite (z : Phasor Float) : Prop := z.re.isFinite = true ∧ z.im.isFinite = true

def values (z : Phasor Float) : Phasor ℚ := ⟨(ofFloat z.re).value, (ofFloat z.im).value⟩

def number (z : Phasor Float) : ℂ := z.values.toComplex

theorem number_re (z : Phasor Float) : z.number.re = ((ofFloat z.re).value : ℝ) := rfl

theorem number_im (z : Phasor Float) : z.number.im = ((ofFloat z.im).value : ℝ) := rfl

theorem number_eq_zero_iff {z : Phasor Float} :
    z.number = 0 ↔ (ofFloat z.re).value = 0 ∧ (ofFloat z.im).value = 0 := by
  rw [Complex.ext_iff]
  exact and_congr Rat.cast_eq_zero Rat.cast_eq_zero

theorem number_resistance (x : Float) : number ⟨x, 0⟩ = ((ofFloat x).value : ℂ) := by
  have h0 : (ofFloat 0).value = 0 :=
    (beq_zero_iff_value (isFinite_of_beq_zero isZero_zero)).mp isZero_zero
  apply Complex.ext
  · rw [number_re, Complex.ratCast_re]
  · rw [number_im, Complex.ratCast_im, h0, Rat.cast_zero]

/-! ## Sums -/

theorem isFinite_of_add {z w : Phasor Float} (h : (z.add w).IsFinite) : z.IsFinite ∧ w.IsFinite := by
  obtain ⟨hzre, hwre⟩ := Binary.isFinite_of_add h.1
  obtain ⟨hzim, hwim⟩ := Binary.isFinite_of_add h.2
  exact ⟨⟨hzre, hzim⟩, ⟨hwre, hwim⟩⟩

theorem isFinite_of_foldl {y : Phasor Float} {ys : List (Phasor Float)}
    (h : (ys.foldl add y).IsFinite) : y.IsFinite := by
  induction ys generalizing y with
  | nil => exact h
  | cons x ys ih => exact (isFinite_of_add (ih h)).1

theorem cast_add_error {x y : Float} (h : (x + y).isFinite = true) :
    |((ofFloat (x + y)).value : ℝ) - ((ofFloat x).value + (ofFloat y).value)| ≤
      2 ^ (-53 : ℤ) * |((ofFloat x).value : ℝ) + (ofFloat y).value| := by
  have herror := (Rat.cast_le (K := ℝ)).mpr (Binary.add_error h)
  push_cast at herror
  exact herror

theorem add_number_error {z w : Phasor Float} (h : (z.add w).IsFinite) :
    ‖(z.add w).number - (z.number + w.number)‖ ≤ 2 ^ (-53 : ℤ) * (‖z.number‖ + ‖w.number‖) := by
  have hpos : (0 : ℝ) ≤ 2 ^ (-53 : ℤ) := by positivity
  have hclose := norm_le_of_close hpos le_rfl
    ((cast_add_error h.1).trans_eq (add_zero _).symm) ((cast_add_error h.2).trans_eq (add_zero _).symm)
    (z := (z.add w).number - (z.number + w.number)) (w := z.number + w.number)
  rw [mul_zero, add_zero] at hclose
  exact hclose.trans (mul_le_mul_of_nonneg_left (norm_add_le _ _) hpos)

theorem add_number_le {z w : Phasor Float} (h : (z.add w).IsFinite) :
    ‖(z.add w).number‖ ≤ (1 + 2 ^ (-53 : ℤ)) * (‖z.number‖ + ‖w.number‖) := by
  have hle := norm_le_norm_add_norm_sub' (z.add w).number (z.number + w.number)
  have hsum := norm_add_le z.number w.number
  have herror := add_number_error h
  linarith

/-- Summing up makes one rounding for every summand after the first. -/
theorem foldl_number_error {y : Phasor Float} {ys : List (Phasor Float)}
    (h : (ys.foldl add y).IsFinite) :
    ‖(ys.foldl add y).number - (y.number + (ys.map number).sum)‖ ≤
      roundings ys.length * (‖y.number‖ + (ys.map fun x => ‖x.number‖).sum) := by
  induction ys generalizing y with
  | nil => simp [roundings_zero]
  | cons x ys ih =>
    rw [List.foldl_cons] at h ⊢
    have hstep := add_number_error (isFinite_of_foldl h)
    have hfirst := add_number_le (isFinite_of_foldl h)
    have htail := ih h
    have hr := roundings_nonneg ys.length
    have hrest : 0 ≤ (ys.map fun x => ‖x.number‖).sum := List.sum_nonneg (by simp)
    rw [List.map_cons, List.sum_cons, List.map_cons, List.sum_cons, List.length_cons, roundings_succ]
    generalize (ys.foldl add (y.add x)).number = total at htail ⊢
    generalize (y.add x).number = first at hstep hfirst htail
    generalize (ys.map number).sum = rest at htail ⊢
    generalize (ys.map fun x => ‖x.number‖).sum = size at htail hrest ⊢
    calc ‖total - (y.number + (x.number + rest))‖
        = ‖(total - (first + rest)) + (first - (y.number + x.number))‖ := by congr 1; ring
      _ ≤ ‖total - (first + rest)‖ + ‖first - (y.number + x.number)‖ := norm_add_le _ _
      _ ≤ roundings ys.length * (‖first‖ + size) + ‖first - (y.number + x.number)‖ := by gcongr
      _ ≤ roundings ys.length * ((1 + 2 ^ (-53 : ℤ)) * (‖y.number‖ + ‖x.number‖) + size) +
            2 ^ (-53 : ℤ) * (‖y.number‖ + ‖x.number‖) := by gcongr
      _ ≤ (roundings ys.length * (1 + 2 ^ (-53 : ℤ)) + 2 ^ (-53 : ℤ)) *
            (‖y.number‖ + (‖x.number‖ + size)) := by
        have h1 : 0 ≤ roundings ys.length * 2 ^ (-53 : ℤ) * size := by positivity
        have h2 : 0 ≤ 2 ^ (-53 : ℤ) * size := by positivity
        linarith

/-! ## Reciprocals -/

def Moderate (z : Phasor Float) : Prop := Binary.Moderate z.re ∧ Binary.Moderate z.im

theorem values_square (z : Phasor Float) : z.values.square =
    (ofFloat z.re).value * (ofFloat z.re).value + (ofFloat z.im).value * (ofFloat z.im).value := rfl

theorem values_square_nonneg (z : Phasor Float) : 0 ≤ z.values.square :=
  add_nonneg (mul_self_nonneg _) (mul_self_nonneg _)

theorem squares_error {z : Phasor Float} (h : z.Moderate) :
    |(ofFloat (z.re * z.re)).value + (ofFloat (z.im * z.im)).value - z.values.square| ≤
      2 ^ (-53 : ℤ) * z.values.square := by
  have hre := h.1.square_error.2
  have him := h.2.square_error.2
  rw [values_square, mul_add, add_sub_add_comm]
  exact (abs_add_le _ _).trans (add_le_add hre him)

theorem squares_le {z : Phasor Float} (h : z.Moderate) :
    |(ofFloat (z.re * z.re)).value + (ofFloat (z.im * z.im)).value| ≤
      (1 + 2 ^ (-53 : ℤ)) * z.values.square := by
  have htri := abs_sub_abs_le_abs_sub
    ((ofFloat (z.re * z.re)).value + (ofFloat (z.im * z.im)).value) z.values.square
  rw [abs_of_nonneg (values_square_nonneg z)] at htri
  have hclose := squares_error h
  linarith

theorem square_isFinite {z : Phasor Float} (h : z.Moderate) : z.square.isFinite = true := by
  have hround := isRounding_add h.1.square_error.1 h.2.square_error.1
  apply hround.isFinite_iff.mpr
  have hsize : z.values.square ≤ 2 ^ (960 : ℤ) + 2 ^ (960 : ℤ) :=
    add_le_add h.1.square_le h.2.square_le
  calc _ ≤ (1 + 2 ^ (-53 : ℤ)) * z.values.square := squares_le h
    _ ≤ 2 * (2 ^ (960 : ℤ) + 2 ^ (960 : ℤ)) :=
        mul_le_mul (by norm_num) hsize (values_square_nonneg z) (by norm_num)
    _ = 2 ^ (962 : ℤ) := by
        rw [← two_mul, ← zpow_one_add₀ (by norm_num), ← zpow_one_add₀ (by norm_num)]
        rfl
    _ < overflow := pow_lt_overflow (by norm_num)

/-- The divisor of a reciprocal is rounded three times, as each square is and the sum of the two. -/
theorem square_error {z : Phasor Float} (h : z.Moderate) :
    |(ofFloat z.square).value - z.values.square| ≤ 3 * 2 ^ (-53 : ℤ) * z.values.square := by
  have hsum := add_error (square_isFinite h)
  have hle := mul_le_mul_of_nonneg_left (squares_le h) (show (0 : ℚ) ≤ 2 ^ (-53 : ℤ) by positivity)
  have hu : (2 : ℚ) ^ (-53 : ℤ) * ((1 + 2 ^ (-53 : ℤ)) * z.values.square) ≤
      2 ^ (-53 : ℤ) * (2 * z.values.square) := by
    have hone : (1 : ℚ) + 2 ^ (-53 : ℤ) ≤ 2 := by norm_num
    have hnonneg := values_square_nonneg z
    gcongr
  have htri := abs_sub_le (ofFloat z.square).value
    ((ofFloat (z.re * z.re)).value + (ofFloat (z.im * z.im)).value) z.values.square
  have hclose := squares_error h
  calc |(ofFloat z.square).value - z.values.square|
      ≤ 2 ^ (-53 : ℤ) * (2 * z.values.square) + 2 ^ (-53 : ℤ) * z.values.square :=
        htri.trans (add_le_add (hsum.trans (hle.trans hu)) hclose)
    _ = 3 * 2 ^ (-53 : ℤ) * z.values.square := by ring

theorem values_square_pos {z : Phasor Float} (h0 : z.number ≠ 0) : 0 < z.values.square := by
  have h := Complex.normSq_pos.mpr h0
  rw [number, normSq_toComplex] at h
  exact_mod_cast h

def quotient (z : Phasor Float) : ℂ :=
  toComplex ⟨z.values.re / (ofFloat z.square).value, -z.values.im / (ofFloat z.square).value⟩

theorem quotient_eq {z : Phasor Float} (h0 : z.number ≠ 0) : z.quotient =
    ((z.values.square / (ofFloat z.square).value : ℚ) : ℂ) * z.number⁻¹ := by
  have hpos := values_square_pos h0
  have hparts : (⟨z.values.re / (ofFloat z.square).value,
      -z.values.im / (ofFloat z.square).value⟩ : Phasor ℚ) =
      ⟨z.values.square / (ofFloat z.square).value * (z.values.re / z.values.square),
        z.values.square / (ofFloat z.square).value * (-z.values.im / z.values.square)⟩ := by
    congr 1 <;> field_simp
  rw [quotient, hparts, number, ← reciprocal_toComplex]
  apply Complex.ext <;> simp [toComplex]

theorem ratio_error {n d : ℚ} (hn : 0 < n) (h : |d - n| ≤ 3 * 2 ^ (-53 : ℤ) * n) :
    0 < d ∧ |n / d - 1| ≤ 4 * 2 ^ (-53 : ℤ) := by
  have hpart : 3 * 2 ^ (-53 : ℤ) * n ≤ 1 / 4 * n := mul_le_mul_of_nonneg_right (by norm_num) hn.le
  have hd : 3 / 4 * n ≤ d := by linarith [(abs_le.mp (h.trans hpart)).1]
  have hpos : 0 < d := lt_of_lt_of_le (by positivity) hd
  refine ⟨hpos, ?_⟩
  rw [div_sub_one hpos.ne', abs_div, abs_of_pos hpos, div_le_iff₀ hpos, abs_sub_comm]
  calc |d - n| ≤ 3 * 2 ^ (-53 : ℤ) * n := h
    _ = 4 * 2 ^ (-53 : ℤ) * (3 / 4 * n) := by ring
    _ ≤ 4 * 2 ^ (-53 : ℤ) * d := mul_le_mul_of_nonneg_left hd (by positivity)

theorem quotient_error {z : Phasor Float} (h : z.Moderate) (h0 : z.number ≠ 0) :
    ‖z.quotient - z.number⁻¹‖ ≤ 4 * 2 ^ (-53 : ℤ) * ‖z.number⁻¹‖ := by
  obtain ⟨-, hratio⟩ := ratio_error (values_square_pos h0) (square_error h)
  have hcast := (Rat.cast_le (K := ℝ)).mpr hratio
  push_cast at hcast
  rw [quotient_eq h0, ← sub_one_mul, norm_mul]
  apply mul_le_mul_of_nonneg_right _ (norm_nonneg _)
  have hnorm : ‖((z.values.square / (ofFloat z.square).value : ℚ) : ℂ) - 1‖ =
      |(z.values.square : ℝ) / (ofFloat z.square).value - 1| := by
    rw [← Real.norm_eq_abs, ← Complex.norm_real]
    push_cast
    rfl
  rwa [hnorm]

theorem number_le {z : Phasor Float} (h : z.Moderate) : ‖z.number‖ ≤ 2 ^ (481 : ℤ) := by
  have hre := (Rat.cast_le (K := ℝ)).mpr h.1.most
  have him := (Rat.cast_le (K := ℝ)).mpr h.2.most
  rw [Rat.cast_abs, Rat.cast_zpow, Rat.cast_ofNat] at hre him
  calc ‖z.number‖ ≤ |z.number.re| + |z.number.im| := Complex.norm_le_abs_re_add_abs_im _
    _ ≤ 2 ^ (480 : ℤ) + 2 ^ (480 : ℤ) := add_le_add hre him
    _ = 2 ^ (481 : ℤ) := by
      rw [← two_mul, ← zpow_one_add₀ (by norm_num)]
      rfl

theorem le_number {z : Phasor Float} (h : z.Moderate) (h0 : z.number ≠ 0) :
    2 ^ (-480 : ℤ) ≤ ‖z.number‖ := by
  have hpart : ∀ v : ℚ, v = 0 ∨ 2 ^ (-480 : ℤ) ≤ |v| → (v : ℝ) ≠ 0 → 2 ^ (-480 : ℤ) ≤ |(v : ℝ)| := by
    intro v hv hne
    have hle := (Rat.cast_le (K := ℝ)).mpr (hv.resolve_left (by exact_mod_cast hne))
    rwa [Rat.cast_abs, Rat.cast_zpow, Rat.cast_ofNat] at hle
  by_cases hre : z.number.re = 0
  · have him : z.number.im ≠ 0 := fun him => h0 (Complex.ext hre him)
    exact (hpart _ h.2.least him).trans (Complex.abs_im_le_norm z.number)
  · exact (hpart _ h.1.least hre).trans (Complex.abs_re_le_norm z.number)

theorem inverse_bounds {z : Phasor Float} (h : z.Moderate) (h0 : z.number ≠ 0) :
    2 ^ (-481 : ℤ) ≤ ‖z.number⁻¹‖ ∧ ‖z.number⁻¹‖ ≤ 2 ^ (480 : ℤ) := by
  rw [norm_inv, zpow_neg]
  have hpos := norm_pos_iff.mpr h0
  constructor
  · exact inv_anti₀ hpos (number_le h)
  · apply inv_le_of_inv_le₀ (by positivity)
    rw [← zpow_neg]
    exact le_number h h0

theorem quotient_le {z : Phasor Float} (h : z.Moderate) (h0 : z.number ≠ 0) :
    ‖z.quotient‖ ≤ 3 / 2 * ‖z.number⁻¹‖ := by
  have htri := norm_le_norm_add_norm_sub' z.quotient z.number⁻¹
  have herror := quotient_error h h0
  have hle : 4 * 2 ^ (-53 : ℤ) * ‖z.number⁻¹‖ ≤ 1 / 2 * ‖z.number⁻¹‖ :=
    mul_le_mul_of_nonneg_right (by norm_num) (norm_nonneg _)
  linarith

/-- A part of the exact quotient and what it is rounded to. -/
theorem part_error {x : Float} {z : Phasor Float} (h : z.Moderate) (h0 : z.number ≠ 0)
    (hx : x.isFinite = true)
    (hle : |(((ofFloat x).value / (ofFloat z.square).value : ℚ) : ℝ)| ≤ ‖z.quotient‖) :
    |((ofFloat (x / z.square)).value : ℝ) -
        ((ofFloat x).value / (ofFloat z.square).value : ℚ)| ≤
      2 ^ (-53 : ℤ) * |(((ofFloat x).value / (ofFloat z.square).value : ℚ) : ℝ)| +
        2 ^ (-1075 : ℤ) := by
  obtain ⟨hpos, -⟩ := ratio_error (values_square_pos h0) (square_error h)
  have hlt : |(ofFloat x).value / (ofFloat z.square).value| < overflow := by
    have hbound : |(((ofFloat x).value / (ofFloat z.square).value : ℚ) : ℝ)| ≤ 2 ^ (481 : ℤ) := by
      calc _ ≤ 3 / 2 * ‖z.number⁻¹‖ := hle.trans (quotient_le h h0)
        _ ≤ 2 * 2 ^ (480 : ℤ) :=
            mul_le_mul (by norm_num) (inverse_bounds h h0).2 (norm_nonneg _) (by norm_num)
        _ = 2 ^ (481 : ℤ) := by
            rw [← zpow_one_add₀ (by norm_num)]
            rfl
    have hrat : |(ofFloat x).value / (ofFloat z.square).value| ≤ 2 ^ (481 : ℤ) := by
      rwa [← Rat.cast_le (K := ℝ), Rat.cast_abs, Rat.cast_zpow, Rat.cast_ofNat]
    exact hrat.trans_lt (pow_lt_overflow (by norm_num))
  have herror := (Rat.cast_le (K := ℝ)).mpr (div_error hx (square_isFinite h) hpos.ne' hlt)
  simp only [Rat.cast_abs, Rat.cast_sub, Rat.cast_add, Rat.cast_mul, Rat.cast_zpow,
    Rat.cast_ofNat] at herror
  exact herror

/-- The reciprocal makes six roundings of the inverse, and what it loses below the least double. -/
theorem reciprocal_error {z y : Phasor Float} (h : z.Moderate) (h0 : z.number ≠ 0)
    (hy : z.reciprocal? = some y) : ‖y.number - z.number⁻¹‖ ≤ roundings 6 * ‖z.number⁻¹‖ := by
  obtain ⟨-, rfl⟩ := reciprocal?_eq_some_iff.mp hy
  have hrounded : ‖number ⟨z.re / z.square, -z.im / z.square⟩ - z.quotient‖ ≤
      2 ^ (-53 : ℤ) * ‖z.quotient‖ + 2 * 2 ^ (-1075 : ℤ) := by
    apply norm_le_of_close (by positivity) (by positivity)
    · exact part_error h h0 h.1.finite (Complex.abs_re_le_norm z.quotient)
    · have hpart := part_error h h0 h.2.neg.finite
      rw [value_neg] at hpart
      exact hpart (Complex.abs_im_le_norm z.quotient)
  have hquotient := quotient_error h h0
  have hsize := mul_le_mul_of_nonneg_left (quotient_le h h0)
    (show (0 : ℝ) ≤ 2 ^ (-53 : ℤ) by positivity)
  have hleast : (2 : ℝ) * 2 ^ (-1075 : ℤ) ≤ 2 ^ (-54 : ℤ) * ‖z.number⁻¹‖ := by
    calc (2 : ℝ) * 2 ^ (-1075 : ℤ) = 2 ^ (1 + -1075 : ℤ) := (zpow_one_add₀ (by norm_num) _).symm
      _ ≤ 2 ^ (-54 + -481 : ℤ) := zpow_le_zpow_right₀ (by norm_num) (by norm_num)
      _ = 2 ^ (-54 : ℤ) * 2 ^ (-481 : ℤ) := zpow_add₀ (by norm_num) _ _
      _ ≤ 2 ^ (-54 : ℤ) * ‖z.number⁻¹‖ :=
          mul_le_mul_of_nonneg_left (inverse_bounds h h0).1 (by positivity)
  calc ‖number ⟨z.re / z.square, -z.im / z.square⟩ - z.number⁻¹‖
      ≤ ‖number ⟨z.re / z.square, -z.im / z.square⟩ - z.quotient‖ + ‖z.quotient - z.number⁻¹‖ :=
        norm_sub_le_norm_sub_add_norm_sub _ _ _
    _ ≤ 2 ^ (-53 : ℤ) * (3 / 2 * ‖z.number⁻¹‖) + 2 ^ (-54 : ℤ) * ‖z.number⁻¹‖ +
          4 * 2 ^ (-53 : ℤ) * ‖z.number⁻¹‖ := by linarith
    _ = ((6 : ℕ) : ℝ) * 2 ^ (-53 : ℤ) * ‖z.number⁻¹‖ := by
        norm_num
        ring
    _ ≤ roundings 6 * ‖z.number⁻¹‖ :=
        mul_le_mul_of_nonneg_right (le_roundings 6) (norm_nonneg _)

end Phasor

end Immittance
