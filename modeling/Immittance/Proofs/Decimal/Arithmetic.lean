import Mathlib
import Immittance.Proofs.Decimal.Residue

/-!
# Arithmetic of doubles

A finite double is a number, and the sum, the product and the quotient of two of them are the correct
roundings of the exact ones. Only finite doubles have a finite sum or product.
-/

set_option autoImplicit false

namespace Immittance

open Float.Model Float.Model.UnpackedFloat

namespace Binary

def factor (negative : Bool) : ℚ := if negative then -1 else 1

def value : Binary → ℚ
  | .finite negative m e => factor negative * (m * 2 ^ e)
  | _ => 0

theorem value_zero (negative : Bool) (e : ℤ) : (Binary.finite negative 0 e).value = 0 := by
  rw [value, Nat.cast_zero, zero_mul, mul_zero]

theorem factor_sq (negative : Bool) : factor negative * factor negative = 1 := by
  cases negative <;> norm_num [factor]

theorem abs_factor (negative : Bool) : |factor negative| = 1 := by
  cases negative <;> norm_num [factor]

theorem factor_mul (a b : Bool) : factor a * factor b = factor (a != b) := by
  cases a <;> cases b <;> norm_num [factor]

theorem factor_div (a b : Bool) : factor a / factor b = factor (a != b) := by
  cases a <;> cases b <;> norm_num [factor]

theorem sign_mul (a b : Bool) : sign a * sign b = sign (a != b) := by
  cases a <;> cases b <;> rfl

theorem sign_div (a b : Bool) : sign a / sign b = sign (a != b) := by
  cases a <;> cases b <;> rfl

/-- A double is the correct rounding of a number: of its size, under its sign. Zero has two signs. -/
def IsRounding (v : ℚ) (x : Float) : Prop :=
  ∃ negative w, v = factor negative * w ∧ 0 ≤ w ∧ Rounds negative w x

theorem size_lt_overflow {m : ℕ} {e : ℤ} (h : IsMantissa m e) : (m : ℚ) * 2 ^ e < overflow := by
  have hm : (m : ℚ) ≤ 2 ^ 53 - 1 := by
    have : (m : ℚ) + 1 ≤ (2 ^ 53 : ℕ) := by exact_mod_cast h.lt
    push_cast at this
    linarith
  have he : (2 : ℚ) ^ e ≤ 2 ^ (971 : ℤ) := zpow_le_zpow_right₀ (by norm_num) h.most
  have hpos : (0 : ℚ) < 2 ^ (971 : ℤ) := by positivity
  calc (m : ℚ) * 2 ^ e ≤ (2 ^ 53 - 1) * 2 ^ (971 : ℤ) :=
        mul_le_mul hm he (by positivity) (by norm_num)
    _ < overflow := by
        rw [overflow]
        exact mul_lt_mul_of_pos_right (by norm_num) hpos

theorem rounds_self {x : Float} {negative : Bool} {m : ℕ} {e : ℤ}
    (h : ofFloat x = .finite negative m e) : Rounds negative (m * 2 ^ e) x := by
  have hm := isMantissa_of_finite h
  refine .finite h (size_lt_overflow hm) (fun k l hk => ?_) (fun k l hk hne htie => ?_)
  · rw [sub_self, abs_zero]
    exact abs_nonneg _
  · rw [sub_self, abs_zero] at htie
    exact absurd (sub_eq_zero.mp (abs_eq_zero.mp htie.symm)).symm hne

theorem pack_unpacked (x : Float) : .ofModel (.pack (ofFloat x).unpacked) = x :=
  ofFloat_injective (ofFloat_pack (canonical_ofFloat x))

theorem unpacked_zero (negative : Bool) (e : ℤ) :
    (Binary.finite negative 0 e).unpacked = .zero (sign negative) := rfl

theorem unpacked_finite (negative : Bool) {m : ℕ} (e : ℤ) (h : 0 < m) :
    (Binary.finite negative m e).unpacked = .finite (sign negative) m e h := dif_pos h

theorem isMantissa_zero : IsMantissa 0 (-1074) := ⟨by omega, le_rfl, by omega, Or.inl rfl⟩

theorem rounds_zero (negative : Bool) :
    Rounds negative 0 (.ofModel (.pack (.zero (sign negative)))) := by
  have h := rounds_self (ofFloat_pack (b := .finite negative 0 (-1074)) isMantissa_zero)
  rwa [Nat.cast_zero, zero_mul, unpacked_zero] at h

/-! ## Products -/

theorem mul_eq (x y : Float) : x * y =
    .ofModel (.pack (UnpackedFloat.mul Format.binary64 (ofFloat x).unpacked (ofFloat y).unpacked)) := by
  rw [← unpack_toModel, ← unpack_toModel]
  rfl

/-- The product of two mantissas is long enough: one of them has fifty-three bits, or both exponents
are the least. -/
theorem reaches_mul {m n : ℕ} {e f : ℤ} (hm : IsMantissa m e) (hn : IsMantissa n f) (hm0 : 0 < m)
    (hn0 : 0 < n) : Reaches (m * n) (e + f) := by
  rw [Reaches]
  have hle := Nat.le_mul_of_pos_right m hn0
  have hle' := Nat.le_mul_of_pos_left n hm0
  have hfull := hm.full
  have hfull' := hn.full
  omega

theorem mul_zero_unpacked (a b : Bool) {m n : ℕ} (e f : ℤ) (h : m = 0 ∨ n = 0) :
    UnpackedFloat.mul Format.binary64 (Binary.finite a m e).unpacked
      (Binary.finite b n f).unpacked = .zero (sign (a != b)) := by
  rw [← sign_mul]
  rcases Nat.eq_zero_or_pos m with rfl | hm
  · rcases Nat.eq_zero_or_pos n with rfl | hn
    · rfl
    · rw [unpacked_finite b f hn]
      rfl
  · obtain rfl := h.resolve_left hm.ne'
    rw [unpacked_finite a e hm]
    rfl

/-- The product of two doubles is rounded under the sign that their signs make. -/
theorem rounds_mul {x y : Float} {a b : Bool} {m n : ℕ} {e f : ℤ} (hx : ofFloat x = .finite a m e)
    (hy : ofFloat y = .finite b n f) : Rounds (a != b) ((m * n : ℕ) * 2 ^ (e + f)) (x * y) := by
  rw [mul_eq, hx, hy]
  by_cases h : m = 0 ∨ n = 0
  · rw [mul_zero_unpacked a b e f h, Nat.mul_eq_zero.mpr h, Nat.cast_zero, zero_mul]
    exact rounds_zero _
  · obtain ⟨hm, hn⟩ := not_or.mp h
    have hm := Nat.pos_of_ne_zero hm
    have hn := Nat.pos_of_ne_zero hn
    rw [unpacked_finite a e hm, unpacked_finite b f hn, UnpackedFloat.mul, sign_mul]
    apply rounds_roundWithAccuracy
    · exact reaches_mul (isMantissa_of_finite hx) (isMantissa_of_finite hy) hm hn
    · rw [mul_div_cancel_right₀ _ (by positivity)]
      exact sub_self _

theorem isRounding_mul {x y : Float} (hx : x.isFinite = true) (hy : y.isFinite = true) :
    IsRounding ((ofFloat x).value * (ofFloat y).value) (x * y) := by
  obtain ⟨a, m, e, hx⟩ := isFinite_iff.mp hx
  obtain ⟨b, n, f, hy⟩ := isFinite_iff.mp hy
  refine ⟨a != b, _, ?_, by positivity, rounds_mul hx hy⟩
  rw [hx, hy, value, value, ← factor_mul, zpow_add₀ (by norm_num)]
  push_cast
  ring

theorem ofFloat_one : ofFloat 1 = .finite false (2 ^ 52) (-52) := by decide +kernel

theorem one_mul_of_finite {x : Float} (h : x.isFinite = true) : 1 * x = x := by
  obtain ⟨a, m, e, hx⟩ := isFinite_iff.mp h
  have hround := rounds_mul ofFloat_one hx
  have hsize : ((2 ^ 52 * m : ℕ) : ℚ) * 2 ^ (-52 + e) = m * 2 ^ e := by
    rw [zpow_add₀ (by norm_num)]
    norm_num
    ring
  rw [hsize, Bool.false_bne] at hround
  exact hround.unique (rounds_self hx)

theorem mul_neg_one_of_finite {x : Float} (h : x.isFinite = true) : x * -1 = -x := by
  obtain ⟨a, m, e, hx⟩ := isFinite_iff.mp h
  have hround := rounds_mul hx (ofFloat_neg ofFloat_one)
  have hsize : ((m * 2 ^ 52 : ℕ) : ℚ) * 2 ^ (e + -52) = m * 2 ^ e := by
    rw [zpow_add₀ (by norm_num)]
    norm_num
    ring
  rw [hsize, Bool.not_false, Bool.bne_true] at hround
  exact hround.unique (rounds_self (ofFloat_neg hx))

/-! ## Quotients -/

theorem div_eq (x y : Float) : x / y =
    .ofModel (.pack (UnpackedFloat.div Format.binary64 (ofFloat x).unpacked (ofFloat y).unpacked)) := by
  rw [← unpack_toModel, ← unpack_toModel]
  rfl

/-- The quotient of two mantissas, the first one shifted so that it is long enough. -/
theorem divCore_spec {m n : ℕ} (e f : ℤ) (hm : 0 < m) (hn : 0 < n) :
    ∃ q t a, divCore Format.binary64 m e n f = (q, t, a) ∧ Reaches q t ∧
      Locates a ((m : ℚ) * 2 ^ e / (n * 2 ^ f) / 2 ^ t - q) := by
  obtain ⟨t, ht⟩ : ∃ t, t = min (e - f) (Format.binary64.targetExponent
    (totalExponent m e - totalExponent n f)) := ⟨_, rfl⟩
  obtain ⟨k, hk⟩ : ∃ k : ℕ, e - f - t = k := ⟨(e - f - t).toNat, by omega⟩
  refine ⟨m <<< k / n, t, accuracyOfFraction (m <<< k % n) n, ?_, ?_, ?_⟩
  · rw [divCore, ← ht, hk, Int.toNat_natCast]
  · rw [Reaches]
    have htarget : Format.binary64.targetExponent (totalExponent m e - totalExponent n f) =
        max ((m.log2 : ℤ) + e - n.log2 - f - 53) (-1074) := by
      show max ((m.log2 : ℤ) + 1 + e - (n.log2 + 1 + f) - 53) (-1074) = _
      congr 1
      ring
    rw [htarget] at ht
    by_cases hleast : t ≤ -1074
    · exact Or.inr hleast
    · left
      -- the shift makes up for the bits that the second mantissa has more
      have hlog : 52 + (n.log2 + 1) ≤ m.log2 + k := by omega
      rw [Nat.le_div_iff_mul_le hn, Nat.shiftLeft_eq]
      calc 2 ^ 52 * n ≤ 2 ^ 52 * 2 ^ (n.log2 + 1) := Nat.mul_le_mul_left _ Nat.lt_log2_self.le
        _ = 2 ^ (52 + (n.log2 + 1)) := (Nat.pow_add 2 52 (n.log2 + 1)).symm
        _ ≤ 2 ^ (m.log2 + k) := Nat.pow_le_pow_right (by omega) hlog
        _ = 2 ^ m.log2 * 2 ^ k := Nat.pow_add 2 m.log2 k
        _ ≤ m * 2 ^ k := Nat.mul_le_mul_right _ (Nat.log2_self_le hm.ne')
  · have hn' : (n : ℚ) ≠ 0 := by positivity
    have hpow : (2 : ℚ) ^ e = 2 ^ k * 2 ^ f * 2 ^ t := by
      rw [← zpow_natCast 2 k, ← zpow_add₀ (by norm_num), ← zpow_add₀ (by norm_num), ← hk]
      congr 1
      ring
    have hquot : (m : ℚ) * 2 ^ e / (n * 2 ^ f) / 2 ^ t = ((m <<< k : ℕ) : ℚ) / n := by
      rw [hpow, Nat.shiftLeft_eq]
      push_cast
      field_simp
    rw [hquot, div_eq_div_add _ hn, add_sub_cancel_left]
    exact locates_accuracyOfFraction (Nat.mod_lt _ hn)

theorem isRounding_div {x y : Float} (hx : x.isFinite = true) (hy : y.isFinite = true)
    (h0 : (ofFloat y).value ≠ 0) : IsRounding ((ofFloat x).value / (ofFloat y).value) (x / y) := by
  obtain ⟨a, m, e, hx⟩ := isFinite_iff.mp hx
  obtain ⟨b, n, f, hy⟩ := isFinite_iff.mp hy
  have hv : (ofFloat x).value / (ofFloat y).value =
      factor (a != b) * ((m * 2 ^ e) / (n * 2 ^ f)) := by
    rw [hx, hy, value, value, ← factor_div]
    exact mul_div_mul_comm _ _ _ _
  have hn : 0 < n := by
    apply Nat.pos_of_ne_zero
    rintro rfl
    apply h0
    rw [hy, value_zero]
  refine ⟨a != b, _, hv, by positivity, ?_⟩
  rw [div_eq, hx, hy, unpacked_finite b f hn]
  rcases Nat.eq_zero_or_pos m with rfl | hm
  · rw [unpacked_zero, UnpackedFloat.div, sign_div, Nat.cast_zero, zero_mul, zero_div]
    exact rounds_zero _
  · obtain ⟨q, t, acc, hcore, hreach, hloc⟩ := divCore_spec e f hm hn
    rw [unpacked_finite a e hm, UnpackedFloat.div, hcore, sign_div]
    exact rounds_roundWithAccuracy _ hreach hloc

/-! ## Sums -/

theorem add_eq (x y : Float) : x + y =
    .ofModel (.pack (UnpackedFloat.add Format.binary64 (ofFloat x).unpacked (ofFloat y).unpacked)) := by
  rw [← unpack_toModel, ← unpack_toModel]
  rfl

theorem decreaseExponent_spec (m : ℕ) (e t : ℤ) : ∃ n f, decreaseExponent m e t = (n, f) ∧
    f = min e t ∧ (n : ℚ) * 2 ^ f = m * 2 ^ e ∧ n = m * 2 ^ (e - t).toNat := by
  refine ⟨_, _, rfl, by omega, ?_, Nat.shiftLeft_eq _ _⟩
  rw [Nat.shiftLeft_eq]
  push_cast
  rw [mul_assoc, ← zpow_natCast 2 (e - t).toNat, ← zpow_add₀ (by norm_num)]
  congr 2
  ring

theorem rounds_round (negative : Bool) {m : ℕ} (e : ℤ) (hm : 0 < m) : Rounds negative (m * 2 ^ e)
    (.ofModel (.pack (UnpackedFloat.round Format.binary64 (sign negative) m e))) := by
  obtain ⟨n, f, hdec, hf, hval, hn⟩ := decreaseExponent_spec m e (target m e)
  rw [UnpackedFloat.round, targetExponent_eq, hdec, ← hval]
  apply rounds_roundWithAccuracy
  · rw [Reaches]
    by_cases hleast : f ≤ -1074
    · exact Or.inr hleast
    · left
      have ht : target m e = m.log2 + e - 52 := by
        rw [target] at hf ⊢
        omega
      have hlog : 52 ≤ m.log2 + (e - target m e).toNat := by omega
      rw [hn]
      calc 2 ^ 52 ≤ 2 ^ (m.log2 + (e - target m e).toNat) := Nat.pow_le_pow_right (by omega) hlog
        _ = 2 ^ m.log2 * 2 ^ (e - target m e).toNat := Nat.pow_add 2 _ _
        _ ≤ m * 2 ^ (e - target m e).toNat := Nat.mul_le_mul_right _ (Nat.log2_self_le hm.ne')
  · rw [mul_div_cancel_right₀ _ (by positivity)]
    exact sub_self _

theorem rounds_normalize (k e : ℤ) : Rounds (decide (k < 0)) (k.natAbs * 2 ^ e)
    (.ofModel (.pack (UnpackedFloat.normalize Format.binary64 k e .positive))) := by
  rw [UnpackedFloat.normalize]
  rcases lt_trichotomy k 0 with h | rfl | h
  · rw [compare_lt_iff_lt.mpr h, decide_eq_true h, show (-k).toNat = k.natAbs by omega]
    exact rounds_round true e (by omega)
  · rw [Int.natAbs_zero, Nat.cast_zero, zero_mul]
    exact rounds_zero false
  · rw [compare_gt_iff_gt.mpr h, decide_eq_false (by omega), show k.toNat = k.natAbs by omega]
    exact rounds_round false e (by omega)

theorem apply_sign (negative : Bool) (k : ℕ) :
    (((sign negative).apply k : ℤ) : ℚ) = factor negative * k := by
  cases negative with
  | false => simp [sign, Sign.apply, factor]
  | true => simp [sign, Sign.apply, factor]

theorem zero_add_parts {x y : Float} {a b : Bool} {n : ℕ} {e f : ℤ}
    (hx : ofFloat x = .finite a 0 e) (hy : ofFloat y = .finite b n f) (hn : 0 < n) : x + y = y := by
  have hu : UnpackedFloat.add Format.binary64 (ofFloat x).unpacked (ofFloat y).unpacked =
      (ofFloat y).unpacked := by
    rw [hx, hy, unpacked_zero, unpacked_finite b f hn]
    rfl
  rw [add_eq, hu, pack_unpacked]

theorem add_zero_parts {x y : Float} {a b : Bool} {m : ℕ} {e f : ℤ}
    (hx : ofFloat x = .finite a m e) (hy : ofFloat y = .finite b 0 f) (hm : 0 < m) : x + y = x := by
  have hu : UnpackedFloat.add Format.binary64 (ofFloat x).unpacked (ofFloat y).unpacked =
      (ofFloat x).unpacked := by
    rw [hx, hy, unpacked_zero, unpacked_finite a e hm]
    rfl
  rw [add_eq, hu, pack_unpacked]

theorem add_zeros {x y : Float} {a b : Bool} {e f : ℤ} (hx : ofFloat x = .finite a 0 e)
    (hy : ofFloat y = .finite b 0 f) : ofFloat (x + y) = .finite (a && b) 0 (-1074) := by
  have hu : UnpackedFloat.add Format.binary64 (ofFloat x).unpacked (ofFloat y).unpacked =
      (Binary.finite (a && b) 0 (-1074)).unpacked := by
    rw [hx, hy, unpacked_zero, unpacked_zero, unpacked_zero]
    cases a <;> cases b <;> rfl
  rw [add_eq, hu]
  exact ofFloat_pack (b := .finite (a && b) 0 (-1074)) isMantissa_zero

/-- What is not zero is added as whole numbers of steps of the smaller exponent. -/
theorem rounds_add_parts {x y : Float} {a b : Bool} {m n : ℕ} {e f : ℤ}
    (hx : ofFloat x = .finite a m e) (hy : ofFloat y = .finite b n f) (hm : 0 < m) (hn : 0 < n) :
    ∃ k : ℤ, (ofFloat x).value + (ofFloat y).value = k * 2 ^ min e f ∧
      Rounds (decide (k < 0)) (k.natAbs * 2 ^ min e f) (x + y) := by
  obtain ⟨i, g, hi, hg, hival, -⟩ := decreaseExponent_spec m e (min e f)
  obtain ⟨j, g', hj, hg', hjval, -⟩ := decreaseExponent_spec n f (min e f)
  obtain rfl : g = min e f := by omega
  obtain rfl : g' = min e f := by omega
  refine ⟨(sign a).apply i + (sign b).apply j, ?_, ?_⟩
  · rw [hx, hy, value, value, ← hival, ← hjval, Int.cast_add, apply_sign, apply_sign]
    ring
  · have hu : UnpackedFloat.add Format.binary64 (ofFloat x).unpacked (ofFloat y).unpacked =
        UnpackedFloat.normalize Format.binary64 ((sign a).apply i + (sign b).apply j) (min e f)
          .positive := by
      rw [hx, hy, unpacked_finite a e hm, unpacked_finite b f hn, UnpackedFloat.add, hi, hj]
    rw [add_eq, hu]
    exact rounds_normalize _ _

theorem isRounding_self {x : Float} (h : x.isFinite = true) : IsRounding (ofFloat x).value x := by
  obtain ⟨a, m, e, hx⟩ := isFinite_iff.mp h
  exact ⟨a, m * 2 ^ e, by rw [hx, value], by positivity, rounds_self hx⟩

theorem cast_eq_factor (k : ℤ) : (k : ℚ) = factor (decide (k < 0)) * k.natAbs := by
  by_cases h : k < 0
  · have hk : ((k.natAbs : ℤ) : ℚ) = ((-k : ℤ) : ℚ) := by rw [Int.ofNat_natAbs_of_nonpos h.le]
    rw [decide_eq_true h, factor, if_pos rfl, ← Int.cast_natCast, hk]
    push_cast
    ring
  · have hk : ((k.natAbs : ℤ) : ℚ) = (k : ℚ) := by rw [Int.natAbs_of_nonneg (not_lt.mp h)]
    rw [decide_eq_false h, factor, if_neg Bool.false_ne_true, ← Int.cast_natCast, hk, one_mul]

theorem factor_natAbs (k : ℤ) (e : ℤ) :
    (k : ℚ) * 2 ^ e = factor (decide (k < 0)) * (k.natAbs * 2 ^ e) := by
  rw [← mul_assoc, ← cast_eq_factor]

theorem Rounds.isRounding {v : ℚ} {x : Float} (h : Rounds false v x) (hv : 0 ≤ v) (negative : Bool) :
    IsRounding (factor negative * v) (if negative then -x else x) := by
  refine ⟨negative, v, rfl, hv, ?_⟩
  cases negative with
  | false => exact h
  | true => exact h.neg

theorem isRounding_add {x y : Float} (hx : x.isFinite = true) (hy : y.isFinite = true) :
    IsRounding ((ofFloat x).value + (ofFloat y).value) (x + y) := by
  obtain ⟨a, m, e, hxp⟩ := isFinite_iff.mp hx
  obtain ⟨b, n, f, hyp⟩ := isFinite_iff.mp hy
  rcases Nat.eq_zero_or_pos m with rfl | hm
  · have hx0 : (ofFloat x).value = 0 := by rw [hxp, value_zero]
    rcases Nat.eq_zero_or_pos n with rfl | hn
    · have hy0 : (ofFloat y).value = 0 := by rw [hyp, value_zero]
      have h := rounds_self (add_zeros hxp hyp)
      rw [Nat.cast_zero, zero_mul] at h
      exact ⟨a && b, 0, by rw [hx0, hy0, add_zero, mul_zero], le_rfl, h⟩
    · rw [zero_add_parts hxp hyp hn, hx0, zero_add]
      exact isRounding_self hy
  · rcases Nat.eq_zero_or_pos n with rfl | hn
    · have hy0 : (ofFloat y).value = 0 := by rw [hyp, value_zero]
      rw [add_zero_parts hxp hyp hm, hy0, add_zero]
      exact isRounding_self hx
    · obtain ⟨k, hval, hround⟩ := rounds_add_parts hxp hyp hm hn
      exact ⟨_, _, hval.trans (factor_natAbs k _), by positivity, hround⟩

/-! ## Operations with what is not finite -/

/-- What is packed into a finite double is finite. -/
theorem unpacked_isFinite_of_pack {u : UnpackedFloat}
    (h : (Float.ofModel (.pack u)).isFinite = true) : u.isFinite = true := by
  cases u with
  | notANumber => exact absurd h (by decide)
  | infinity s =>
    have hinf : (Float.ofModel (.pack (.infinity s))).isFinite = false := by
      cases s <;> rfl
    rw [hinf] at h
    exact absurd h (by decide)
  | zero s => rfl
  | finite s m e hm => rfl

theorem isFinite_eq (x : Float) : x.isFinite = (ofFloat x).unpacked.isFinite := by
  rw [← unpack_toModel]
  rfl

theorem isFinite_neg (x : Float) : (-x).isFinite = x.isFinite := by
  rw [isFinite_eq, isFinite_eq, ofFloat_opposite]
  cases ofFloat x with
  | nan => rfl
  | infinite negative => cases negative <;> rfl
  | finite negative m e =>
    rcases Nat.eq_zero_or_pos m with rfl | hm
    · rfl
    · rw [opposite, unpacked_finite _ e hm, unpacked_finite _ e hm]
      rfl

theorem isFinite_of_add {x y : Float} (h : (x + y).isFinite = true) :
    x.isFinite = true ∧ y.isFinite = true := by
  rw [add_eq] at h
  have hsum := unpacked_isFinite_of_pack h
  rw [isFinite_eq x, isFinite_eq y]
  cases hx : (ofFloat x).unpacked with
  | notANumber =>
    rw [hx] at hsum
    exact absurd hsum Bool.false_ne_true
  | infinity s =>
    rw [hx] at hsum
    cases hy : (ofFloat y).unpacked with
    | infinity t =>
      rw [hy] at hsum
      cases s <;> cases t <;> exact absurd hsum (by decide)
    | notANumber | zero | finite =>
      rw [hy] at hsum
      exact absurd hsum Bool.false_ne_true
  | zero s | finite s m e hm =>
    rw [hx] at hsum
    cases hy : (ofFloat y).unpacked with
    | notANumber | infinity =>
      rw [hy] at hsum
      exact absurd hsum Bool.false_ne_true
    | zero | finite => exact ⟨rfl, rfl⟩

theorem isFinite_of_mul {x y : Float} (h : (x * y).isFinite = true) :
    x.isFinite = true ∧ y.isFinite = true := by
  rw [mul_eq] at h
  have hprod := unpacked_isFinite_of_pack h
  rw [isFinite_eq x, isFinite_eq y]
  cases hx : (ofFloat x).unpacked with
  | notANumber =>
    rw [hx] at hprod
    exact absurd hprod Bool.false_ne_true
  | infinity s =>
    rw [hx] at hprod
    cases hy : (ofFloat y).unpacked with
    | notANumber | infinity | zero | finite =>
      rw [hy] at hprod
      exact absurd hprod Bool.false_ne_true
  | zero s | finite s m e hm =>
    rw [hx] at hprod
    cases hy : (ofFloat y).unpacked with
    | notANumber | infinity =>
      rw [hy] at hprod
      exact absurd hprod Bool.false_ne_true
    | zero | finite => exact ⟨rfl, rfl⟩

end Binary

end Immittance
