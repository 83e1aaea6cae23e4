import Mathlib
import Immittance.Proofs.Decimal.Extremes

/-!
# Exact results

Some numbers are doubles. Where the exact result of an operation is one, nothing is rounded. A whole
number that is a double has only divisors that are doubles, and of a double other than zero and one,
up to its sign, only powers to small exponents are doubles.
-/

set_option autoImplicit false

namespace Immittance.Binary

open Decimal Float.Model Float.Model.UnpackedFloat

def IsDouble (v : ℚ) : Prop := ∃ x : Float, x.isFinite = true ∧ (ofFloat x).value = v

theorem isDouble_value {x : Float} (h : x.isFinite = true) : IsDouble (ofFloat x).value :=
  ⟨x, h, rfl⟩

theorem IsDouble.neg {v : ℚ} (h : IsDouble v) : IsDouble (-v) := by
  obtain ⟨x, hx, rfl⟩ := h
  exact ⟨-x, by rw [isFinite_neg, hx], value_neg x⟩

theorem isDouble_abs_iff {v : ℚ} : IsDouble |v| ↔ IsDouble v := by
  rcases abs_choice v with h | h
  · rw [h]
  · rw [h]
    exact ⟨fun k => neg_neg v ▸ k.neg, IsDouble.neg⟩

theorem isDouble_of_mantissa {m : ℕ} {e : ℤ} (h : IsMantissa m e) : IsDouble (m * 2 ^ e) := by
  have hx := ofFloat_ofBits_mantissa h
  refine ⟨_, isFinite_iff.mpr ⟨_, _, _, hx⟩, ?_⟩
  rw [hx, value, factor, if_neg Bool.false_ne_true, one_mul]

theorem IsDouble.exists_mantissa {v : ℚ} (h : IsDouble v) :
    ∃ m e, IsMantissa m e ∧ |v| = m * 2 ^ e := by
  obtain ⟨x, hx, rfl⟩ := h
  obtain ⟨negative, m, e, hp⟩ := isFinite_iff.mp hx
  refine ⟨m, e, isMantissa_of_finite hp, ?_⟩
  rw [hp, value, abs_mul, abs_factor, one_mul, abs_of_nonneg (by positivity)]

theorem IsDouble.lt_overflow {v : ℚ} (h : IsDouble v) : |v| < overflow := by
  obtain ⟨m, e, hm, hv⟩ := h.exists_mantissa
  rw [hv]
  exact size_lt_overflow hm

theorem IsRounding.exact {v : ℚ} {x : Float} (h : IsRounding v x) (hv : IsDouble v) :
    x.isFinite = true ∧ (ofFloat x).value = v := by
  have hx := h.isFinite_iff.mpr hv.lt_overflow
  obtain ⟨m, e, hm, habs⟩ := hv.exists_mantissa
  have hnear := h.nearest hx hm
  rw [habs, sub_self, abs_zero] at hnear
  exact ⟨hx, sub_eq_zero.mp (abs_nonpos_iff.mp hnear)⟩

theorem mul_exact {x y : Float} (hx : x.isFinite = true) (hy : y.isFinite = true)
    (h : IsDouble ((ofFloat x).value * (ofFloat y).value)) :
    (x * y).isFinite = true ∧ (ofFloat (x * y)).value = (ofFloat x).value * (ofFloat y).value :=
  (isRounding_mul hx hy).exact h

theorem div_exact {x y : Float} (hx : x.isFinite = true) (hy : y.isFinite = true)
    (h0 : (ofFloat y).value ≠ 0) (h : IsDouble ((ofFloat x).value / (ofFloat y).value)) :
    (x / y).isFinite = true ∧ (ofFloat (x / y)).value = (ofFloat x).value / (ofFloat y).value :=
  (isRounding_div hx hy h0).exact h

/-! ## Numbers that are doubles -/

/-- Fifty-three bits at any exponent in the range of doubles. -/
theorem isDouble_of_size {v : ℚ} {k : ℕ} {l : ℤ} (hv : |v| = k * 2 ^ l) (hk : k < 2 ^ 53)
    (hl : -1074 ≤ l) (hlt : |v| < overflow) : IsDouble v := by
  rw [← isDouble_abs_iff, hv]
  rw [hv] at hlt
  rcases Nat.eq_zero_or_pos k with rfl | h0
  · rw [Nat.cast_zero, zero_mul, ← zero_mul (2 ^ (-1074 : ℤ)), ← Nat.cast_zero]
    exact isDouble_of_mantissa isMantissa_zero
  obtain ⟨e, he⟩ : ∃ e, IsExponent ((k : ℚ) * 2 ^ l) e := by
    obtain ⟨hn, hd⟩ := unscale_pos two_pos h0 l
    exact ⟨_, by exact_mod_cast unscale_value 2 k l ▸ isExponent_exponentOf hn hd⟩
  have hpos : (0 : ℚ) < 2 ^ e := by positivity
  have hk' : (k : ℚ) < 2 ^ 53 := by exact_mod_cast hk
  -- the exponent at which the mantissa is full is not above the given one
  have hel : e ≤ l := by
    rcases he.full with h | h
    · omega
    · have hlt : (2 : ℚ) ^ 52 * 2 ^ e < 2 ^ 52 * 2 ^ (l + 1) := by
        rw [zpow_add_one₀ two_ne_zero]
        have : (0 : ℚ) < 2 ^ l := by positivity
        nlinarith
      have := (zpow_lt_zpow_iff_right₀ one_lt_two).mp (lt_of_mul_lt_mul_left hlt (by positivity))
      omega
  obtain ⟨j, hj⟩ := exists_multiple k hel
  have hfull := he.full
  have hlow := he.lt
  rw [hj] at hfull hlow hlt ⊢
  have hj53 : (j : ℚ) < 2 ^ 53 := lt_of_mul_lt_mul_right hlow hpos.le
  have hfull : e = -1074 ∨ 2 ^ 52 ≤ j := by
    apply hfull.imp_right
    intro h
    exact_mod_cast le_of_mul_le_mul_right h hpos
  refine isDouble_of_mantissa ⟨by exact_mod_cast hj53, he.least, ?_, hfull⟩
  by_contra hmost
  have h52 : (2 : ℚ) ^ 52 ≤ j := by exact_mod_cast hfull.resolve_left (by omega)
  have hpow : (2 : ℚ) ^ (972 : ℤ) ≤ 2 ^ e := zpow_le_zpow_right₀ one_le_two (by omega)
  have hstep : (2 : ℚ) ^ (972 : ℤ) = 2 * 2 ^ (971 : ℤ) := by
    rw [← zpow_one_add₀ two_ne_zero]
    rfl
  have h971 : (0 : ℚ) < 2 ^ (971 : ℤ) := by positivity
  have hle : (2 : ℚ) ^ 52 * 2 ^ (972 : ℤ) ≤ j * 2 ^ e :=
    mul_le_mul h52 hpow (by positivity) (by positivity)
  rw [hstep] at hle
  rw [overflow] at hlt
  generalize (2 : ℚ) ^ (971 : ℤ) = p at h971 hle hlt
  linarith

theorem isDouble_of_natAbs_lt {n : ℤ} (h : n.natAbs < 2 ^ 53) : IsDouble n := by
  have hsize : |(n : ℚ)| = (n.natAbs : ℕ) * 2 ^ (0 : ℤ) := by
    rw [zpow_zero, mul_one, Nat.cast_natAbs, Int.cast_abs]
  refine isDouble_of_size hsize h (by omega) ?_
  rw [hsize]
  refine lt_trans ?_ (pow_lt_overflow (k := 53) (by norm_num))
  rw [zpow_zero, mul_one]
  exact_mod_cast h

/-! ## Equality -/

theorem dvd_of_odd {a b c : ℕ} {e l : ℤ} (ha : Odd a)
    (h : ((a * c : ℕ) : ℚ) * 2 ^ e = b * 2 ^ l) : a ∣ b := by
  obtain ⟨s, hs⟩ : ∃ s : ℕ, (s : ℤ) = e - min e l := ⟨(e - min e l).toNat, by omega⟩
  obtain ⟨t, ht⟩ : ∃ t : ℕ, (t : ℤ) = l - min e l := ⟨(l - min e l).toNat, by omega⟩
  have hpow : ((a * c : ℕ) * 2 ^ s : ℚ) = b * 2 ^ t := by
    rw [← zpow_natCast, ← zpow_natCast, hs, ht, zpow_sub₀ two_ne_zero, zpow_sub₀ two_ne_zero,
      ← mul_div_assoc, ← mul_div_assoc, h]
  have hnat : a * c * 2 ^ s = b * 2 ^ t := by exact_mod_cast hpow
  have hcoprime : Nat.Coprime a (2 ^ t) := (Nat.coprime_two_right.mpr ha).pow_right t
  exact hcoprime.dvd_of_dvd_mul_right (hnat ▸ Nat.dvd_mul_right_of_dvd (Nat.dvd_mul_right a c) _)

theorem overflow_lt_pow : overflow < 2 ^ (1024 : ℤ) := by
  have hstep : (2 : ℚ) ^ (1024 : ℤ) = 2 ^ 53 * 2 ^ (971 : ℤ) := by
    rw [← zpow_natCast, ← zpow_add₀ two_ne_zero]
    rfl
  rw [overflow, hstep]
  exact mul_lt_mul_of_pos_right (by norm_num) (by positivity)

/-- The exponents of powers of two that are doubles. -/
theorem exponent_of_isDouble {e : ℤ} (h : IsDouble (2 ^ e)) : e.natAbs ≤ 1074 := by
  obtain ⟨m, l, hm, hval⟩ := h.exists_mantissa
  have hlt := h.lt_overflow.trans overflow_lt_pow
  have hpos : (0 : ℚ) < 2 ^ e := by positivity
  rw [abs_of_pos hpos] at hval hlt
  have hupper := (zpow_lt_zpow_iff_right₀ one_lt_two).mp hlt
  have hlower : l ≤ e := by
    have hm0 : (1 : ℚ) ≤ m := by
      rcases Nat.eq_zero_or_pos m with rfl | hm0
      · rw [Nat.cast_zero, zero_mul] at hval
        exact absurd hval hpos.ne'
      · exact_mod_cast hm0
    rw [← zpow_le_zpow_iff_right₀ (one_lt_two (α := ℚ)), hval]
    exact le_mul_of_one_le_left (by positivity) hm0
  have := hm.least
  omega

/-- Of a double other than zero and one, up to its sign, no powers to large exponents are doubles. -/
theorem natAbs_le_of_isDouble_zpow {v : ℚ} {n : ℤ} (hv : IsDouble v) (h0 : v ≠ 0) (h1 : |v| ≠ 1)
    (h : IsDouble (v ^ n)) : n.natAbs ≤ 1074 := by
  obtain ⟨m, e, -, hval⟩ := hv.exists_mantissa
  obtain ⟨k, l, hk, hpow⟩ := h.exists_mantissa
  have hm0 : m ≠ 0 := by
    rintro rfl
    rw [Nat.cast_zero, zero_mul, abs_eq_zero] at hval
    exact h0 hval
  have hk0 : 0 < k := by
    apply Nat.pos_of_ne_zero
    rintro rfl
    rw [Nat.cast_zero, zero_mul, abs_eq_zero] at hpow
    exact zpow_ne_zero n h0 hpow
  obtain ⟨s, j, hj, rfl⟩ := Nat.exists_eq_two_pow_mul_odd hm0
  -- the double is its odd part times a power of two
  have hodd : |v| = j * 2 ^ (e + s) := by
    rw [hval, zpow_add₀ two_ne_zero, zpow_natCast]
    push_cast
    ring
  rcases Nat.lt_or_ge 1 j with hj1 | hj1
  · have hj0 : (j : ℚ) ≠ 0 := Nat.cast_ne_zero.mpr (by omega)
    rcases Int.eq_nat_or_neg n with ⟨a, rfl | rfl⟩
    · -- the power of the odd part has no more than fifty-three bits
      have hdvd : j ^ a ∣ k := by
        apply dvd_of_odd (c := 1) (e := (e + s) * a) (l := l) hj.pow
        rw [← hpow, abs_zpow, hodd, mul_zpow, ← zpow_mul, zpow_natCast]
        push_cast
        ring
      have hlt : 2 ^ a < 2 ^ 53 :=
        ((Nat.pow_le_pow_left hj1 a).trans (Nat.le_of_dvd hk0 hdvd)).trans_lt hk.lt
      have := (Nat.pow_lt_pow_iff_right (by omega)).mp hlt
      omega
    · -- the inverse of an odd part is no binary fraction
      have hone : j ^ a ∣ 1 := by
        apply dvd_of_odd (c := k) (e := l + (e + s) * a) (l := 0) hj.pow
        have hinv : |v| ^ (a : ℤ) * |v ^ (-(a : ℤ))| = 1 := by
          rw [abs_zpow, ← zpow_add₀ (abs_ne_zero.mpr h0), add_neg_cancel, zpow_zero]
        rw [hpow, hodd, mul_zpow, ← zpow_mul, zpow_natCast] at hinv
        rw [zpow_add₀ two_ne_zero, zpow_zero, mul_one, Nat.cast_one, ← hinv]
        push_cast
        ring
      have ha : a = 0 := by
        by_contra ha
        exact absurd (Nat.dvd_one.mp hone) (Nat.one_lt_pow ha hj1).ne'
      omega
  · obtain rfl : j = 1 := by
      have := hj.pos
      omega
    rw [Nat.cast_one, one_mul] at hodd
    have hdouble : IsDouble (2 ^ ((e + s) * n)) := by
      rw [zpow_mul, ← hodd, ← abs_zpow]
      exact isDouble_abs_iff.mpr h
    have hle := exponent_of_isDouble hdouble
    have hne : (e + s).natAbs ≠ 0 := by
      intro hzero
      rw [Int.natAbs_eq_zero.mp hzero, zpow_zero] at hodd
      exact h1 hodd
    rw [Int.natAbs_mul] at hle
    exact (Nat.le_mul_of_pos_left _ (Nat.pos_of_ne_zero hne)).trans hle

end Immittance.Binary
