import Mathlib
import Immittance.Proofs.Decimal.RoundingError

/-!
# Doubles at the ends of their range

The square of a double vanishes or overflows long before the double does. In between, where the double
is moderate, it is off by a part in two to the fifty-three. Sums of doubles with one sign, and so of
squares, do not fall below their summands.
-/

set_option autoImplicit false

namespace Immittance

open Float.Model Float.Model.UnpackedFloat

namespace Binary

/-! ## Values and signs -/

theorem sign_value {x : Float} (h : x.isFinite = true) :
    SignType.sign (ofFloat x).value = floatSign x := by
  obtain ⟨negative, m, e, hx⟩ := isFinite_iff.mp h
  rw [floatSign, unpack_toModel, hx]
  rcases Nat.eq_zero_or_pos m with rfl | hm
  · rw [unpacked_zero, value_zero, sign_zero]
    rfl
  · have hpos : (0 : ℚ) < m * 2 ^ e := by positivity
    rw [unpacked_finite negative e hm, value]
    cases negative with
    | false =>
      rw [factor, if_neg Bool.false_ne_true, one_mul, sign_pos hpos]
      rfl
    | true =>
      rw [factor, if_pos rfl, neg_one_mul, sign_neg (neg_lt_zero.mpr hpos)]
      rfl

theorem value_pos {r : Float} (hr : r.isFinite = true) (h : 0 < r) : 0 < (ofFloat r).value := by
  rw [← sign_eq_one_iff, sign_value hr]
  exact floatSign_eq_one_iff.mpr h

theorem value_neg_of_lt {r : Float} (hr : r.isFinite = true) (h : r < 0) : (ofFloat r).value < 0 := by
  rw [← sign_eq_neg_one_iff, sign_value hr]
  exact floatSign_eq_neg_one_iff.mpr h

theorem value_neg (x : Float) : (ofFloat (-x)).value = -(ofFloat x).value := by
  rw [ofFloat_opposite]
  cases ofFloat x with
  | nan => exact neg_zero.symm
  | infinite negative => exact neg_zero.symm
  | finite negative m e => cases negative <;> simp [opposite, value, factor]

theorem factor_mul_sq (negative : Bool) (v : ℚ) : (factor negative * v) ^ 2 = v ^ 2 := by
  rw [mul_pow, sq (factor negative), factor_sq, one_mul]

/-! ## Zeros -/

theorem isZero_zero : ((0 : Float) == 0) = true := beq_zero_iff.mpr ⟨false, ofFloat_zero⟩

theorem add_isZero {x y : Float} (hx : (x == 0) = true) (hy : (y == 0) = true) :
    (x + y == 0) = true := by
  have hxf := isFinite_of_beq_zero hx
  have hyf := isFinite_of_beq_zero hy
  rw [add_isZero_iff hxf hyf, (beq_zero_iff_value hxf).mp hx, (beq_zero_iff_value hyf).mp hy,
    add_zero]

theorem zero_div_isZero {x y : Float} (hx : (x == 0) = true) (hy : (y == 0) = false)
    (hfin : y.isFinite = true) : (x / y == 0) = true := by
  have hxf := isFinite_of_beq_zero hx
  have hy0 : (ofFloat y).value ≠ 0 := by
    intro h
    rw [(beq_zero_iff_value hfin).mpr h] at hy
    exact absurd hy (by decide)
  rw [(isRounding_div hxf hfin hy0).isZero_iff, (beq_zero_iff_value hxf).mp hx, zero_div, abs_zero]
  positivity

/-! ## Lower bounds -/

def AtLeast (negative : Bool) (c : ℚ) (x : Float) : Prop :=
  x.isFinite = true → c ≤ factor negative * (ofFloat x).value

theorem AtLeast.mono {negative : Bool} {b c : ℚ} {x : Float} (h : AtLeast negative c x)
    (hle : b ≤ c) : AtLeast negative b x := fun hx => hle.trans (h hx)

/-- Rounding does not cross a double. -/
theorem IsRounding.atLeast {v : ℚ} {x : Float} (h : IsRounding v x) {negative : Bool} {k : ℕ} {l : ℤ}
    (hk : IsMantissa k l) (hle : k * 2 ^ l ≤ factor negative * v) :
    AtLeast negative (k * 2 ^ l) x := by
  intro hx
  have hnear := h.nearest hx hk
  have hpos : (0 : ℚ) ≤ k * 2 ^ l := by positivity
  have habs : |v| = factor negative * v := by
    rw [← abs_of_nonneg (hpos.trans hle), abs_mul, abs_factor, one_mul]
  have hdist : |(ofFloat x).value - v| =
      |factor negative * (ofFloat x).value - factor negative * v| := by
    rw [← mul_sub, abs_mul, abs_factor, one_mul]
  rw [hdist, habs, abs_of_nonneg (sub_nonneg.mpr hle)] at hnear
  have hlow := (abs_le.mp hnear).1
  linarith

theorem IsRounding.nonneg {v : ℚ} {x : Float} (h : IsRounding v x) {negative : Bool}
    (hv : 0 ≤ factor negative * v) : AtLeast negative 0 x := by
  have hzero : ((0 : ℕ) : ℚ) * 2 ^ (-1074 : ℤ) = 0 := by rw [Nat.cast_zero, zero_mul]
  rw [← hzero]
  exact h.atLeast isMantissa_zero (by rwa [hzero])

theorem AtLeast.add {negative : Bool} {b c : ℚ} {x y : Float} (hx : AtLeast negative b x)
    (hy : AtLeast negative c y) {k : ℕ} {l : ℤ} (hk : IsMantissa k l) (hle : k * 2 ^ l ≤ b + c) :
    AtLeast negative (k * 2 ^ l) (x + y) := by
  intro hsum
  obtain ⟨hxf, hyf⟩ := isFinite_of_add hsum
  have hxv := hx hxf
  have hyv := hy hyf
  apply (isRounding_add hxf hyf).atLeast hk _ hsum
  rw [mul_add]
  linarith

theorem atLeast_zero_of_isZero {negative : Bool} {x : Float} (h : (x == 0) = true) :
    AtLeast negative 0 x := by
  intro hx
  rw [(beq_zero_iff_value hx).mp h, mul_zero]

/-! ## Squares -/

theorem isRounding_sq {x : Float} (hx : x.isFinite = true) :
    IsRounding ((ofFloat x).value ^ 2) (x * x) := by
  rw [sq]
  exact isRounding_mul hx hx

theorem sq_isZero_iff {x : Float} : (x * x == 0) = true ↔
    x.isFinite = true ∧ (ofFloat x).value ^ 2 ≤ 2 ^ (-1075 : ℤ) := by
  constructor
  · intro h
    have hx := (isFinite_of_mul (isFinite_of_beq_zero h)).1
    rw [(isRounding_sq hx).isZero_iff, abs_sq] at h
    exact ⟨hx, h⟩
  · rintro ⟨hx, h⟩
    rw [(isRounding_sq hx).isZero_iff, abs_sq]
    exact h

theorem small_of_isZero {x : Float} (h : (x == 0) = true) :
    x.isFinite = true ∧ (ofFloat x).value ^ 2 ≤ 2 ^ (-1075 : ℤ) := by
  have hx := isFinite_of_beq_zero h
  rw [(beq_zero_iff_value hx).mp h, zero_pow two_ne_zero]
  exact ⟨hx, by positivity⟩

theorem square_nonneg (x : Float) : AtLeast false 0 (x * x) := by
  intro h
  have hx := (isFinite_of_mul h).1
  apply (isRounding_sq hx).nonneg _ h
  rw [factor, if_neg Bool.false_ne_true, one_mul]
  exact sq_nonneg _

/-- The sum of two squares is zero only if both are, as neither is negative. -/
theorem add_squares_isZero_iff {x y : Float} :
    (x * x + y * y == 0) = true ↔ (x * x == 0) = true ∧ (y * y == 0) = true := by
  constructor
  · intro h
    obtain ⟨hx, hy⟩ := isFinite_of_add (isFinite_of_beq_zero h)
    rw [add_isZero_iff hx hy] at h
    have hx0 := square_nonneg x hx
    have hy0 := square_nonneg y hy
    rw [factor, if_neg Bool.false_ne_true, one_mul] at hx0 hy0
    rw [beq_zero_iff_value hx, beq_zero_iff_value hy]
    constructor <;> linarith
  · rintro ⟨hx, hy⟩
    exact add_isZero hx hy

/-! ## Overflow -/

theorem IsRounding.infinite {v : ℚ} {x : Float} (h : IsRounding v x) (hv : overflow ≤ |v|) :
    ∃ negative, ofFloat x = .infinite negative := by
  obtain ⟨negative, w, rfl, hw, hround⟩ := h
  rw [abs_mul, abs_factor, one_mul, abs_of_nonneg hw] at hv
  cases hround with
  | infinite parts _ => exact ⟨negative, parts⟩
  | finite _ size _ _ => exact absurd size (not_lt.mpr hv)

theorem div_infinite {x y : Float} {negative : Bool} (hx : x.isFinite = true)
    (hy : ofFloat y = .infinite negative) : (x / y == 0) = true := by
  obtain ⟨a, m, e, hx⟩ := isFinite_iff.mp hx
  have hu : UnpackedFloat.div Format.binary64 (ofFloat x).unpacked (ofFloat y).unpacked =
      (Binary.finite (a != negative) 0 (-1074)).unpacked := by
    rw [hx, hy, unpacked_zero, ← sign_div]
    rcases Nat.eq_zero_or_pos m with rfl | hm
    · rfl
    · rw [unpacked_finite a e hm]
      rfl
  apply beq_zero_iff.mpr
  rw [div_eq, hu]
  exact ⟨_, ofFloat_pack (b := .finite (a != negative) 0 (-1074)) isMantissa_zero⟩

theorem pow_lt_overflow {k : ℤ} (h : k ≤ 1023) : (2 : ℚ) ^ k < overflow := by
  have hm : IsMantissa (2 ^ 52) 971 := ⟨by norm_num, by norm_num, by norm_num, Or.inr le_rfl⟩
  have hlt := size_lt_overflow hm
  rw [Nat.cast_pow, Nat.cast_ofNat, ← zpow_natCast, ← zpow_add₀ (by norm_num)] at hlt
  exact (zpow_le_zpow_right₀ (by norm_num) h).trans_lt hlt

/-! ## Moderate doubles -/

structure Moderate (x : Float) : Prop where
  finite : x.isFinite = true
  least : (ofFloat x).value = 0 ∨ 2 ^ (-480 : ℤ) ≤ |(ofFloat x).value|
  most : |(ofFloat x).value| ≤ 2 ^ (480 : ℤ)

theorem moderate_of_isZero {x : Float} (h : (x == 0) = true) : Moderate x := by
  have hx := isFinite_of_beq_zero h
  have h0 := (beq_zero_iff_value hx).mp h
  refine ⟨hx, Or.inl h0, ?_⟩
  rw [h0, abs_zero]
  positivity

/-- A mantissa of full length between the two exponents makes a moderate double. -/
theorem moderate_of_parts {x : Float} {negative : Bool} {m : ℕ} {e : ℤ}
    (hx : ofFloat x = .finite negative m e) (hm : 2 ^ 52 ≤ m) (hlow : -532 ≤ e) (hhigh : e ≤ 427) :
    Moderate x := by
  have hsize : |(ofFloat x).value| = m * 2 ^ e := by
    rw [hx, value, abs_mul, abs_factor, one_mul, abs_of_nonneg (by positivity)]
  have hlt : m < 2 ^ 53 := (isMantissa_of_finite hx).lt
  have hle : (2 : ℚ) ^ 52 ≤ m := by exact_mod_cast hm
  have hge : (m : ℚ) ≤ 2 ^ 53 := by exact_mod_cast hlt.le
  refine ⟨isFinite_iff.mpr ⟨_, _, _, hx⟩, Or.inr ?_, ?_⟩
  · rw [hsize]
    calc (2 : ℚ) ^ (-480 : ℤ) = 2 ^ 52 * 2 ^ (-532 : ℤ) := by
          rw [← zpow_natCast, ← zpow_add₀ (by norm_num)]
          rfl
      _ ≤ m * 2 ^ e := mul_le_mul hle (zpow_le_zpow_right₀ (by norm_num) hlow) (by positivity)
          (by positivity)
  · rw [hsize]
    calc (m : ℚ) * 2 ^ e ≤ 2 ^ 53 * 2 ^ (427 : ℤ) :=
          mul_le_mul hge (zpow_le_zpow_right₀ (by norm_num) hhigh) (by positivity) (by positivity)
      _ = 2 ^ (480 : ℤ) := by
          rw [← zpow_natCast, ← zpow_add₀ (by norm_num)]
          rfl

theorem Moderate.neg {x : Float} (h : Moderate x) : Moderate (-x) := by
  constructor
  · obtain ⟨negative, m, e, hx⟩ := isFinite_iff.mp h.finite
    exact isFinite_iff.mpr ⟨_, m, e, ofFloat_neg hx⟩
  · rw [value_neg, neg_eq_zero, abs_neg]
    exact h.least
  · rw [value_neg, abs_neg]
    exact h.most

theorem Moderate.square_le {x : Float} (h : Moderate x) :
    (ofFloat x).value * (ofFloat x).value ≤ 2 ^ (960 : ℤ) := by
  calc (ofFloat x).value * (ofFloat x).value = |(ofFloat x).value| * |(ofFloat x).value| :=
        (abs_mul_abs_self _).symm
    _ ≤ 2 ^ (480 : ℤ) * 2 ^ (480 : ℤ) :=
        mul_le_mul h.most h.most (abs_nonneg _) (by positivity)
    _ = 2 ^ (960 : ℤ) := by
        rw [← zpow_add₀ (by norm_num)]
        rfl

theorem Moderate.square_error {x : Float} (h : Moderate x) : (x * x).isFinite = true ∧
    |(ofFloat (x * x)).value - (ofFloat x).value * (ofFloat x).value| ≤
      2 ^ (-53 : ℤ) * ((ofFloat x).value * (ofFloat x).value) := by
  have hround := isRounding_mul h.finite h.finite
  have hsize := abs_mul_self (ofFloat x).value
  have hfin : (x * x).isFinite = true := by
    rw [hround.isFinite_iff, hsize]
    exact h.square_le.trans_lt (pow_lt_overflow (by norm_num))
  refine ⟨hfin, ?_⟩
  rcases h.least with h0 | hleast
  · have hnear := hround.nearest hfin isMantissa_zero
    rw [h0, mul_zero, Nat.cast_zero, zero_mul, sub_zero, sub_zero, abs_zero, abs_zero] at hnear
    rwa [h0, mul_zero, mul_zero, sub_zero]
  · have hlarge : 2 ^ (-1022 : ℤ) ≤ |(ofFloat x).value * (ofFloat x).value| := by
      calc (2 : ℚ) ^ (-1022 : ℤ) ≤ 2 ^ (-480 + -480 : ℤ) :=
            zpow_le_zpow_right₀ (by norm_num) (by norm_num)
        _ = 2 ^ (-480 : ℤ) * 2 ^ (-480 : ℤ) := zpow_add₀ (by norm_num) _ _
        _ ≤ |(ofFloat x).value| * |(ofFloat x).value| :=
            mul_le_mul hleast hleast (by positivity) (abs_nonneg _)
        _ = |(ofFloat x).value * (ofFloat x).value| := (abs_mul _ _).symm
    have herror := hround.relative_error hfin hlarge
    rwa [hsize] at herror

theorem div_error {x y : Float} (hx : x.isFinite = true) (hy : y.isFinite = true)
    (h0 : (ofFloat y).value ≠ 0) (hlt : |(ofFloat x).value / (ofFloat y).value| < overflow) :
    |(ofFloat (x / y)).value - (ofFloat x).value / (ofFloat y).value| ≤
      2 ^ (-53 : ℤ) * |(ofFloat x).value / (ofFloat y).value| + 2 ^ (-1075 : ℤ) := by
  have hround := isRounding_div hx hy h0
  have hpart : 0 ≤ 2 ^ (-53 : ℤ) * |(ofFloat x).value / (ofFloat y).value| := by positivity
  have hleast : (0 : ℚ) ≤ 2 ^ (-1075 : ℤ) := by positivity
  rcases hround.error (hround.isFinite_iff.mpr hlt) with h | h <;> linarith

end Binary

end Immittance
