import Mathlib
import Immittance.Proofs.Decimal.Arithmetic
import Immittance.Proofs.Decimal.Sign

/-!
# What rounding does to a result

A result is zero where the exact one is at most half of the least size that is not zero, infinite
where that overflows, and otherwise off by a part in two to the fifty-three, or by half a least step. A
sum is never lost to zero, and has the negative zero of two negative zeros only.
-/

set_option autoImplicit false

namespace Immittance

open Float.Model Float.Model.UnpackedFloat

namespace Binary

/-! ## What rounding does to a value -/

theorem ofFloat_zero : ofFloat 0 = .finite false 0 (-1074) := by
  decide +kernel

theorem beq_zero_iff {x : Float} :
    (x == 0) = true ↔ ∃ negative, ofFloat x = .finite negative 0 (-1074) := by
  rw [beq_eq, ofFloat_zero, unpacked_zero, beq_iff_eq]
  cases hx : ofFloat x with
  | nan => simp [unpacked, UnpackedFloat.compare]
  | infinite negative => cases negative <;> simp [unpacked, sign, UnpackedFloat.compare]
  | finite negative m e =>
    rcases Nat.eq_zero_or_pos m with rfl | hm
    · rw [exponent_of_zero hx, unpacked_zero]
      simp [UnpackedFloat.compare]
    · rw [unpacked_finite negative e hm]
      cases negative <;> simp [sign, UnpackedFloat.compare] <;> omega

theorem value_eq_zero_iff {negative : Bool} {m : ℕ} {e : ℤ} :
    (Binary.finite negative m e).value = 0 ↔ m = 0 := by
  rw [value]
  have h1 : factor negative ≠ 0 := by
    intro h
    have := abs_factor negative
    rw [h, abs_zero] at this
    exact zero_ne_one this
  have h2 : (2 : ℚ) ^ e ≠ 0 := by positivity
  simp [h1, h2]

theorem beq_zero_iff_value {x : Float} (h : x.isFinite = true) :
    (x == 0) = true ↔ (ofFloat x).value = 0 := by
  obtain ⟨a, m, e, hx⟩ := isFinite_iff.mp h
  rw [beq_zero_iff, hx, value_eq_zero_iff]
  constructor
  · rintro ⟨b, hb⟩
    injection hb
  · rintro rfl
    exact ⟨a, by rw [exponent_of_zero hx]⟩

theorem isFinite_of_beq_zero {x : Float} (h : (x == 0) = true) : x.isFinite = true := by
  obtain ⟨a, hx⟩ := beq_zero_iff.mp h
  exact isFinite_iff.mpr ⟨a, 0, -1074, hx⟩

theorem isMantissa_least : IsMantissa 1 (-1074) := ⟨by omega, le_rfl, by omega, Or.inl rfl⟩

/-- A value is rounded to zero if it is at most half of the least size that is not zero. -/
theorem Rounds.parts_zero_iff {negative : Bool} {v : ℚ} {x : Float} (h : Rounds negative v x)
    (hv : 0 ≤ v) : ofFloat x = .finite negative 0 (-1074) ↔ v ≤ 2 ^ (-1075 : ℤ) := by
  have hstep : (2 : ℚ) ^ (-1074 : ℤ) = 2 * 2 ^ (-1075 : ℤ) := by
    rw [← zpow_one_add₀ (by norm_num)]
    rfl
  have hpos : (0 : ℚ) < 2 ^ (-1075 : ℤ) := by positivity
  cases h with
  | infinite parts size =>
    have hlt := size_lt_overflow isMantissa_least
    rw [Nat.cast_one, one_mul] at hlt
    constructor
    · intro hx
      rw [parts] at hx
      exact absurd hx (by simp)
    · intro hle
      linarith
  | @finite m e parts size nearest even =>
    rw [parts]
    constructor
    · intro hx
      injection hx with _ hm _
      have hnear := nearest 1 (-1074) isMantissa_least
      rw [hm, Nat.cast_zero, zero_mul, sub_zero, Nat.cast_one, one_mul, hstep,
        abs_of_nonneg hv] at hnear
      rcases le_abs'.mp hnear with h | h <;> linarith
    · intro hle
      have hm := isMantissa_of_finite parts
      have hnear := nearest 0 (-1074) isMantissa_zero
      rw [Nat.cast_zero, zero_mul, sub_zero, abs_of_nonneg hv] at hnear
      obtain ⟨hlo, hhi⟩ := abs_le.mp hnear
      have hsize : (m : ℚ) * 2 ^ e ≤ 2 ^ (-1074 : ℤ) := by linarith
      rcases Nat.eq_zero_or_pos m with rfl | hm0
      · rw [hm.full.resolve_right (by omega)]
      · -- in the middle between zero and the least size the even mantissa is zero
        have heven := even 0 (-1074) isMantissa_zero
        have hleast : (2 : ℚ) ^ (-1074 : ℤ) ≤ m * 2 ^ e := by
          have h1 : (1 : ℚ) ≤ m := by exact_mod_cast hm0
          have h2 : (2 : ℚ) ^ (-1074 : ℤ) ≤ 2 ^ e := zpow_le_zpow_right₀ (by norm_num) hm.least
          calc (2 : ℚ) ^ (-1074 : ℤ) = 1 * 2 ^ (-1074 : ℤ) := (one_mul _).symm
            _ ≤ m * 2 ^ e := mul_le_mul h1 h2 (by positivity) (by positivity)
        have hone := mantissa_unique hm isMantissa_least
          (by rw [Nat.cast_one, one_mul]; exact le_antisymm hsize hleast)
        rw [hone.1, hone.2, Nat.cast_zero, Nat.cast_one, zero_mul, one_mul, sub_zero] at heven
        have hodd := heven (by positivity)
          (by rw [abs_of_nonneg hv, abs_of_nonpos (by linarith)]; linarith)
        omega

theorem IsRounding.isZero_iff {v : ℚ} {x : Float} (h : IsRounding v x) :
    (x == 0) = true ↔ |v| ≤ 2 ^ (-1075 : ℤ) := by
  obtain ⟨negative, w, rfl, hw, hround⟩ := h
  rw [abs_mul, abs_factor, one_mul, abs_of_nonneg hw, ← hround.parts_zero_iff hw, beq_zero_iff]
  constructor
  · rintro ⟨b, hx⟩
    cases hround with
    | infinite parts _ =>
      rw [parts] at hx
      exact absurd hx (by simp)
    | finite parts _ _ _ =>
      rw [parts] at hx ⊢
      injection hx with _ hm he
      rw [hm, he]
  · exact fun hx => ⟨negative, hx⟩

theorem IsRounding.isFinite_iff {v : ℚ} {x : Float} (h : IsRounding v x) :
    x.isFinite = true ↔ |v| < overflow := by
  obtain ⟨negative, w, rfl, hw, hround⟩ := h
  rw [abs_mul, abs_factor, one_mul, abs_of_nonneg hw, Binary.isFinite_iff]
  cases hround with
  | infinite parts size =>
    rw [parts]
    exact iff_of_false (by simp) (not_lt.mpr size)
  | finite parts size _ _ => exact iff_of_true ⟨_, _, _, parts⟩ size

/-- A rounded value is nearer than every double. -/
theorem IsRounding.nearest {v : ℚ} {x : Float} (h : IsRounding v x) (hx : x.isFinite = true) {k : ℕ}
    {l : ℤ} (hk : IsMantissa k l) : |(ofFloat x).value - v| ≤ |(|v|) - k * 2 ^ l| := by
  obtain ⟨negative, w, rfl, hw, hround⟩ := h
  cases hround with
  | infinite parts _ =>
    obtain ⟨a, m, e, hp⟩ := Binary.isFinite_iff.mp hx
    rw [parts] at hp
    exact absurd hp (by simp)
  | finite parts _ near _ =>
    rw [parts, value, ← mul_sub, abs_mul, abs_mul, abs_factor, one_mul, one_mul, abs_of_nonneg hw,
      abs_sub_comm]
    exact near k l hk

/-- Every value that does not overflow has a double at most half a step away. -/
theorem exists_near {v : ℚ} (h0 : 0 < v) (hv : v < overflow) : ∃ k l, IsMantissa k l ∧
    (|v - k * 2 ^ l| ≤ 2 ^ (-53 : ℤ) * v ∨ |v - k * 2 ^ l| ≤ 2 ^ (-1075 : ℤ)) := by
  have hn : 0 < v.num.toNat := by
    have := Rat.num_pos.mpr h0
    omega
  have hd := v.den_pos
  have hval : (v.num.toNat : ℚ) / v.den = v := by
    have hcast : ((v.num.toNat : ℤ) : ℚ) = v.num := by
      rw [Int.toNat_of_nonneg (Rat.num_nonneg.mpr h0.le)]
    rw [← Int.cast_natCast (R := ℚ), hcast]
    exact Rat.num_div_den v
  have he := isExponent_exponentOf hn hd
  have herr := roundHalfEven_error (shifted_pos v.num.toNat hd (exponentOf v.num.toNat v.den))
    (a := (shifted v.num.toNat v.den (exponentOf v.num.toNat v.den)).1)
  have heven := roundHalfEven_even (shifted_pos v.num.toNat hd (exponentOf v.num.toNat v.den))
    (a := (shifted v.num.toNat v.den (exponentOf v.num.toNat v.den)).1)
  rw [shifted_value, hval] at herr heven
  rw [hval] at he
  generalize exponentOf v.num.toNat v.den = e at he herr heven
  generalize roundHalfEven _ _ = r at herr heven
  obtain ⟨hle, hf⟩ := mantissa_bounds he herr
  obtain ⟨k, l, hk, -, hsize, -⟩ :=
    exists_mantissa hle he.least hf ((lt_overflow_iff he herr heven).mp hv)
  have hpos : (0 : ℚ) < 2 ^ e := by positivity
  have hdist : |v - k * 2 ^ l| ≤ 1 / 2 * 2 ^ e := by
    rw [hsize, distance_eq]
    exact mul_le_mul_of_nonneg_right herr hpos.le
  refine ⟨k, l, hk, he.full.symm.imp (fun hfull => ?_) fun hleast => ?_⟩
  · calc |v - k * 2 ^ l| ≤ 1 / 2 * 2 ^ e := hdist
      _ = 2 ^ (-53 : ℤ) * (2 ^ 52 * 2 ^ e) := by norm_num; ring
      _ ≤ 2 ^ (-53 : ℤ) * v := mul_le_mul_of_nonneg_left hfull (by positivity)
  · calc |v - k * 2 ^ l| ≤ 1 / 2 * 2 ^ e := hdist
      _ = 2 ^ (-1075 : ℤ) := by
        rw [hleast, one_div, ← zpow_neg_one, ← zpow_add₀ (by norm_num)]
        rfl

theorem IsRounding.error {v : ℚ} {x : Float} (h : IsRounding v x) (hx : x.isFinite = true) :
    |(ofFloat x).value - v| ≤ 2 ^ (-53 : ℤ) * |v| ∨
      |(ofFloat x).value - v| ≤ 2 ^ (-1075 : ℤ) := by
  rcases (abs_nonneg v).eq_or_lt with h0 | h0
  · left
    have hnear := h.nearest hx isMantissa_zero
    rwa [← h0, Nat.cast_zero, zero_mul, sub_zero, abs_zero, ← mul_zero (2 ^ (-53 : ℤ)), h0] at hnear
  · obtain ⟨k, l, hk, hdist⟩ := exists_near h0 (h.isFinite_iff.mp hx)
    have hnear := h.nearest hx hk
    exact hdist.imp hnear.trans hnear.trans

theorem IsRounding.relative_error {v : ℚ} {x : Float} (h : IsRounding v x) (hx : x.isFinite = true)
    (hv : 2 ^ (-1022 : ℤ) ≤ |v|) : |(ofFloat x).value - v| ≤ 2 ^ (-53 : ℤ) * |v| := by
  apply (h.error hx).elim id
  intro hle
  calc |(ofFloat x).value - v| ≤ 2 ^ (-1075 : ℤ) := hle
    _ = 2 ^ (-53 : ℤ) * 2 ^ (-1022 : ℤ) := by
      rw [← zpow_add₀ (by norm_num)]
      rfl
    _ ≤ 2 ^ (-53 : ℤ) * |v| := mul_le_mul_of_nonneg_left hv (by positivity)

/-! ## Sums are not lost -/

/-- Every double is a whole number of the least steps. -/
theorem exists_steps {x : Float} (h : x.isFinite = true) :
    ∃ k : ℤ, (ofFloat x).value = k * 2 ^ (-1074 : ℤ) := by
  obtain ⟨a, m, e, hx⟩ := Binary.isFinite_iff.mp h
  obtain ⟨j, hj⟩ := exists_multiple m (isMantissa_of_finite hx).least
  rw [hx, value, hj]
  cases a with
  | false => exact ⟨j, by rw [factor, if_neg Bool.false_ne_true, one_mul, Int.cast_natCast]⟩
  | true =>
    refine ⟨-j, ?_⟩
    rw [factor, if_pos rfl, Int.cast_neg, Int.cast_natCast]
    ring

theorem exists_steps_add {x y : Float} (hx : x.isFinite = true) (hy : y.isFinite = true) :
    ∃ k : ℤ, (ofFloat x).value + (ofFloat y).value = k * 2 ^ (-1074 : ℤ) := by
  obtain ⟨i, hi⟩ := exists_steps hx
  obtain ⟨j, hj⟩ := exists_steps hy
  refine ⟨i + j, ?_⟩
  rw [hi, hj, Int.cast_add]
  ring

theorem steps_eq_zero {k : ℤ} (h : |(k : ℚ) * 2 ^ (-1074 : ℤ)| ≤ 2 ^ (-1075 : ℤ)) : k = 0 := by
  have hstep : (2 : ℚ) ^ (-1074 : ℤ) = 2 * 2 ^ (-1075 : ℤ) := by
    rw [← zpow_one_add₀ (by norm_num)]
    rfl
  have hpos : (0 : ℚ) < 2 ^ (-1075 : ℤ) := by positivity
  rw [abs_mul, hstep, abs_of_pos (by positivity : (0 : ℚ) < 2 * 2 ^ (-1075 : ℤ)), ← mul_assoc] at h
  have hle : |(k : ℚ)| * 2 ≤ 1 := le_of_mul_le_mul_right (by linarith) hpos
  have hlt : ((|k| : ℤ) : ℚ) < (1 : ℤ) := by
    push_cast
    linarith
  exact Int.abs_lt_one_iff.mp (by exact_mod_cast hlt)

theorem add_isZero_iff {x y : Float} (hx : x.isFinite = true) (hy : y.isFinite = true) :
    (x + y == 0) = true ↔ (ofFloat x).value + (ofFloat y).value = 0 := by
  rw [(isRounding_add hx hy).isZero_iff]
  constructor
  · intro h
    obtain ⟨k, hk⟩ := exists_steps_add hx hy
    rw [hk] at h ⊢
    rw [steps_eq_zero h, Int.cast_zero, zero_mul]
  · intro h
    rw [h, abs_zero]
    positivity

/-- The error of a sum is always a part of it, as a small sum is exact. -/
theorem add_error {x y : Float} (h : (x + y).isFinite = true) :
    |(ofFloat (x + y)).value - ((ofFloat x).value + (ofFloat y).value)| ≤
      2 ^ (-53 : ℤ) * |(ofFloat x).value + (ofFloat y).value| := by
  obtain ⟨hx, hy⟩ := isFinite_of_add h
  have hround := isRounding_add hx hy
  by_cases hlarge : 2 ^ (-1022 : ℤ) ≤ |(ofFloat x).value + (ofFloat y).value|
  · exact hround.relative_error h hlarge
  · obtain ⟨k, hk⟩ := exists_steps_add hx hy
    have hsize : |(ofFloat x).value + (ofFloat y).value| = k.natAbs * 2 ^ (-1074 : ℤ) := by
      rw [hk, abs_mul, abs_of_pos (by positivity : (0 : ℚ) < 2 ^ (-1074 : ℤ)), Nat.cast_natAbs,
        Int.cast_abs]
    have hlt : k.natAbs < 2 ^ 52 := by
      have hpos : (0 : ℚ) < 2 ^ (-1074 : ℤ) := by positivity
      have hpow : (2 : ℚ) ^ (-1022 : ℤ) = 2 ^ 52 * 2 ^ (-1074 : ℤ) := by
        rw [← zpow_natCast, ← zpow_add₀ (by norm_num)]
        rfl
      rw [hsize, hpow, not_le] at hlarge
      exact_mod_cast lt_of_mul_lt_mul_right hlarge hpos.le
    have hnear := hround.nearest h (k := k.natAbs) (l := -1074) ⟨by omega, le_rfl, by omega, Or.inl rfl⟩
    rw [← hsize, sub_self, abs_zero] at hnear
    exact hnear.trans (by positivity)

/-! ## The negative zero -/

theorem ofFloat_neg_zero : ofFloat (-0) = .finite true 0 (-1074) := by
  rw [ofFloat_opposite, ofFloat_zero]
  rfl

theorem eq_neg_zero_iff {x : Float} : x = -0 ↔ ∃ e, ofFloat x = .finite true 0 e := by
  constructor
  · rintro rfl
    exact ⟨_, ofFloat_neg_zero⟩
  · rintro ⟨e, hx⟩
    apply ofFloat_injective
    rw [hx, exponent_of_zero hx, ofFloat_neg_zero]

/-- A sum is the negative zero only if both summands are. -/
theorem eq_neg_zero_of_add {x y : Float} (h : x + y = -0) : x = -0 ∧ y = -0 := by
  have hparts : ofFloat (x + y) = .finite true 0 (-1074) := by rw [h, ofFloat_neg_zero]
  obtain ⟨hx, hy⟩ := isFinite_of_add (Binary.isFinite_iff.mpr ⟨_, _, _, hparts⟩)
  obtain ⟨a, m, e, hx⟩ := Binary.isFinite_iff.mp hx
  obtain ⟨b, n, f, hy⟩ := Binary.isFinite_iff.mp hy
  rcases Nat.eq_zero_or_pos m with rfl | hm
  · rcases Nat.eq_zero_or_pos n with rfl | hn
    · rw [add_zeros hx hy] at hparts
      injection hparts with hab _ _
      obtain ⟨rfl, rfl⟩ := Bool.and_eq_true_iff.mp hab
      exact ⟨eq_neg_zero_iff.mpr ⟨e, hx⟩, eq_neg_zero_iff.mpr ⟨f, hy⟩⟩
    · rw [zero_add_parts hx hy hn, hy] at hparts
      injection hparts with _ h0 _
      omega
  · rcases Nat.eq_zero_or_pos n with rfl | hn
    · rw [add_zero_parts hx hy hm, hx] at hparts
      injection hparts with _ h0 _
      omega
    · -- a sum that is rounded to zero is zero, and then not negative
      obtain ⟨k, hval, hround⟩ := rounds_add_parts hx hy hm hn
      have hzero : (ofFloat x).value + (ofFloat y).value = 0 :=
        (add_isZero_iff (Binary.isFinite_iff.mpr ⟨_, _, _, hx⟩)
          (Binary.isFinite_iff.mpr ⟨_, _, _, hy⟩)).mp (beq_zero_iff.mpr ⟨true, hparts⟩)
      have hk : k = 0 := by
        rw [hval] at hzero
        exact_mod_cast (mul_eq_zero.mp hzero).resolve_right (by positivity)
      rw [hk, decide_eq_false (by omega)] at hround
      cases hround with
      | infinite parts _ =>
        rw [parts] at hparts
        exact absurd hparts (by simp)
      | finite parts _ _ _ =>
        rw [parts] at hparts
        injection hparts with hs _ _
        exact absurd hs (by decide)

theorem zero_add_of_ne_zero {x : Float} (h : (x == 0) = false) : 0 + x = x := by
  have hu : UnpackedFloat.add Format.binary64 (ofFloat 0).unpacked (ofFloat x).unpacked =
      (ofFloat x).unpacked := by
    rw [ofFloat_zero, unpacked_zero, ← unpack_toModel]
    cases hx : x.toModel.unpack with
    | zero s => exact absurd hx (unpack_ne_zero h s)
    | notANumber | infinity | finite => rfl
  rw [add_eq, hu, pack_unpacked]

theorem add_zero_of_ne_zero {x y : Float} (hx : (x == 0) = false) (hy : (y == 0) = true) :
    x + y = x := by
  obtain ⟨b, hy⟩ := beq_zero_iff.mp hy
  have hu : UnpackedFloat.add Format.binary64 (ofFloat x).unpacked (ofFloat y).unpacked =
      (ofFloat x).unpacked := by
    rw [hy, unpacked_zero, ← unpack_toModel]
    cases hp : x.toModel.unpack with
    | zero s => exact absurd hp (unpack_ne_zero hx s)
    | notANumber | infinity | finite => rfl
  rw [add_eq, hu, pack_unpacked]

/-- Zero added to a double is the double, except that the negative zero loses its sign. -/
theorem zero_add_eq (x : Float) : 0 + x = if x = -0 then 0 else x := by
  by_cases h : (x == 0) = true
  · obtain ⟨b, hx⟩ := beq_zero_iff.mp h
    have hzero : 0 + x = 0 := by
      apply ofFloat_injective
      rw [add_zeros ofFloat_zero hx, ofFloat_zero, Bool.false_and]
    rw [hzero]
    split_ifs with hneg
    · rfl
    · apply ofFloat_injective
      cases b with
      | false => rw [hx, ofFloat_zero]
      | true => exact absurd (eq_neg_zero_iff.mpr ⟨_, hx⟩) hneg
  · have hne : x ≠ -0 := by
      rintro rfl
      exact h (beq_zero_iff.mpr ⟨true, ofFloat_neg_zero⟩)
    rw [if_neg hne, zero_add_of_ne_zero (by rwa [Bool.not_eq_true] at h)]

end Binary

end Immittance
