import Mathlib
import Immittance.Proofs.Decimal.Literal
import Immittance.Proofs.Decimal.Nearest

/-!
# Decimal values

Digits written in base ten count what they should, and the double that a coefficient and a power of
ten denote depends on their product alone.
-/

set_option autoImplicit false

namespace Immittance

open Text

/-! ## Written digits -/

theorem digitValue?_ascii {c : Char} (h : c.isDigit = true) :
    digitValue? c = some (c.toNat - '0'.toNat) := by
  have h' : '0' ≤ c ∧ c ≤ '9' := by
    simpa [Char.isDigit, UInt32.le_iff_toNat_le, Char.le_def] using h
  have hc : c.toNat < 0x0660 := by
    have := h'.2
    rw [Char.le_def, UInt32.le_iff_toNat_le] at this
    have h9 : '9'.val.toNat = 57 := rfl
    show c.val.toNat < _
    omega
  rw [digitValue?, if_pos hc, if_pos h']

theorem allDigits_toDigits (n : ℕ) : Decimal.AllDigits (Nat.toDigits 10 n) := by
  intro c hc
  rw [isDigit, digitValue?_ascii (Nat.isDigit_of_mem_toDigits (by omega) (by omega) hc)]
  rfl

theorem allDigits_zeros (k : ℕ) : Decimal.AllDigits (List.replicate k '0') := by
  intro c hc
  rw [List.eq_of_mem_replicate hc]
  rfl

theorem foldl_digits (ds : List Char) (n : ℕ) :
    ds.foldl (fun n c => 10 * n + (digitValue? c).getD 0) n =
      10 ^ ds.length * n + digitsValue ds := by
  induction ds using List.reverseRecOn with
  | nil => simp [digitsValue]
  | append_singleton ds c ih =>
    rw [digitsValue, List.foldl_concat, List.foldl_concat, ih, ← digitsValue, List.length_append,
      List.length_singleton, pow_succ]
    ring

theorem digitsValue_append (xs ys : List Char) :
    digitsValue (xs ++ ys) = 10 ^ ys.length * digitsValue xs + digitsValue ys := by
  rw [digitsValue, List.foldl_append, foldl_digits]
  rfl

theorem digitsValue_zeros (k : ℕ) : digitsValue (List.replicate k '0') = 0 := by
  induction k with
  | zero => rfl
  | succ k ih =>
    have h : List.replicate (k + 1) '0' = ['0'] ++ List.replicate k '0' := rfl
    rw [h, digitsValue_append, ih]
    rfl

theorem digitsValue_ascii {ds : List Char} (h : ∀ c ∈ ds, c.isDigit = true) :
    digitsValue ds = Nat.ofDigitChars 10 ds 0 := by
  induction ds using List.reverseRecOn with
  | nil => rfl
  | append_singleton ds c ih =>
    have hc := digitValue?_ascii (h c (by simp))
    rw [digitsValue_append, ih fun d hd => h d (by simp [hd]), Nat.ofDigitChars_append,
      Nat.ofDigitChars_cons, Nat.ofDigitChars_nil, digitsValue, List.foldl_cons, List.foldl_nil, hc]
    simp

theorem digitsValue_toDigits (n : ℕ) : digitsValue (Nat.toDigits 10 n) = n := by
  rw [digitsValue_ascii fun c hc => Nat.isDigit_of_mem_toDigits (by omega) (by omega) hc,
    Nat.ofDigitChars_ten_toDigits]

/-! ## Counting digits -/

theorem digitCount_pos (n : ℕ) : 0 < digitCount n := Nat.length_toDigits_pos

theorem lt_pow_digitCount (n : ℕ) : n < 10 ^ digitCount n :=
  (Nat.length_toDigits_le_iff (by omega) (digitCount_pos n)).mp le_rfl

theorem pow_digitCount_le {n : ℕ} (hn : 0 < n) : 10 ^ (digitCount n - 1) ≤ n := by
  by_contra h
  rcases Nat.eq_zero_or_pos (digitCount n - 1) with h0 | h0
  · rw [h0] at h
    omega
  · have := (Nat.length_toDigits_le_iff (by omega) h0).mpr (not_le.mp h)
    have hpos := digitCount_pos n
    rw [digitCount] at *
    omega

theorem digitCount_eq {n k : ℕ} (hlo : 10 ^ k ≤ n) (hhi : n < 10 ^ (k + 1)) :
    digitCount n = k + 1 := by
  have hn : 0 < n := lt_of_lt_of_le (by positivity) hlo
  have h1 : digitCount n - 1 < k + 1 :=
    (Nat.pow_lt_pow_iff_right (by omega : 1 < 10)).mp (lt_of_le_of_lt (pow_digitCount_le hn) hhi)
  have h2 : k < digitCount n :=
    (Nat.pow_lt_pow_iff_right (by omega : 1 < 10)).mp (lt_of_le_of_lt hlo (lt_pow_digitCount n))
  omega

/-! ## Coefficients and powers -/

def unscale (base c : ℕ) (e : ℤ) : ℕ × ℕ :=
  if 0 ≤ e then (c * base ^ e.toNat, 1) else (c, base ^ (-e).toNat)

theorem unscale_pos {base c : ℕ} (hb : 0 < base) (hc : 0 < c) (e : ℤ) :
    0 < (unscale base c e).1 ∧ 0 < (unscale base c e).2 := by
  rw [unscale]
  split
  · exact ⟨Nat.mul_pos hc (Nat.pow_pos hb), one_pos⟩
  · exact ⟨hc, Nat.pow_pos hb⟩

theorem unscale_value (base c : ℕ) (e : ℤ) :
    ((unscale base c e).1 : ℚ) / (unscale base c e).2 = c * base ^ e := by
  rw [unscale]
  split
  · next h =>
    obtain ⟨k, rfl⟩ := Int.eq_ofNat_of_zero_le h
    rw [Int.toNat_natCast, zpow_natCast]
    push_cast
    rw [div_one]
  · next h =>
    obtain ⟨k, hk⟩ := Int.eq_ofNat_of_zero_le (show 0 ≤ -e by omega)
    obtain rfl : e = -(k : ℤ) := by omega
    rw [neg_neg, Int.toNat_natCast, zpow_neg, zpow_natCast]
    push_cast
    rw [div_eq_mul_inv]

/-- A coefficient times a power of ten lies between powers of ten. -/
theorem pow_bounds {c : ℕ} (hc : 0 < c) (e : ℤ) :
    (10 : ℚ) ^ (e + digitCount c - 1) ≤ c * 10 ^ e ∧ (c : ℚ) * 10 ^ e < 10 ^ (e + digitCount c) := by
  have hpos := digitCount_pos c
  have hlo : ((10 ^ (digitCount c - 1) : ℕ) : ℚ) ≤ c := by exact_mod_cast pow_digitCount_le hc
  have hhi : (c : ℚ) < (10 ^ digitCount c : ℕ) := by exact_mod_cast lt_pow_digitCount c
  have he : (0 : ℚ) < 10 ^ e := by positivity
  push_cast at hlo hhi
  constructor
  · have hexp : e + digitCount c - 1 = e + (digitCount c - 1 : ℕ) := by omega
    rw [hexp, zpow_add₀ (by norm_num), zpow_natCast, mul_comm]
    exact mul_le_mul_of_nonneg_right hlo he.le
  · rw [zpow_add₀ (by norm_num), zpow_natCast, mul_comm]
    exact mul_lt_mul_of_pos_left hhi he

theorem lt_of_pow_lt {a b : ℤ} (h : (10 : ℚ) ^ a < 10 ^ b) : a < b :=
  (zpow_lt_zpow_iff_right₀ (by norm_num)).mp h

theorem scale_unique {c d : ℕ} (hc : 0 < c) (hd : 0 < d) {e f : ℤ}
    (h : (c : ℚ) * 10 ^ e = d * 10 ^ f) : e + digitCount c = f + digitCount d := by
  obtain ⟨h1, h2⟩ := pow_bounds hc e
  obtain ⟨h3, h4⟩ := pow_bounds hd f
  have h5 := lt_of_pow_lt (lt_of_le_of_lt h1 (h ▸ h4))
  have h6 := lt_of_pow_lt (lt_of_le_of_lt h3 (h ▸ h2))
  omega

namespace Decimal

theorem nearest_eq {c : ℕ} (hc : 0 < c) {e : ℤ} (hlo : tooSmall < e + digitCount c)
    (hhi : e + digitCount c < tooLarge) :
    nearest c e = Binary.nearest (unscale 10 c e).1 (unscale 10 c e).2 := by
  rw [nearest, if_neg (by omega), if_neg (by omega), if_neg (by omega), unscale]
  split <;> rfl

/-- The double of a decimal numeral depends on its value alone. -/
theorem nearest_congr {c d : ℕ} (hc : 0 < c) (hd : 0 < d) {e f : ℤ}
    (h : (c : ℚ) * 10 ^ e = d * 10 ^ f) : nearest c e = nearest d f := by
  have hcount := scale_unique hc hd h
  by_cases hhi : e + digitCount c < tooLarge
  · by_cases hlo : tooSmall < e + digitCount c
    · obtain ⟨h1, h2⟩ := unscale_pos (by omega : 0 < 10) hc e
      obtain ⟨h3, h4⟩ := unscale_pos (by omega : 0 < 10) hd f
      rw [nearest_eq hc hlo hhi, nearest_eq hd (hcount ▸ hlo) (hcount ▸ hhi)]
      apply Binary.nearest_congr h1 h2 h3 h4
      rw [unscale_value, unscale_value]
      exact_mod_cast h
    · rw [nearest, nearest, hcount]
      rw [if_neg (by omega), if_neg (by omega), if_pos (by omega), if_neg (by omega),
        if_neg (by omega), if_pos (by omega)]
  · rw [nearest, nearest, hcount, if_neg (by omega), if_pos (by omega), if_neg (by omega),
      if_pos (by omega)]

theorem two_pow_lt : (2 : ℚ) ^ 53 * 2 ^ (971 : ℤ) < 10 ^ (309 : ℤ) := by
  have h : 2 ^ 53 * 2 ^ 971 < 10 ^ 309 := by decide +kernel
  exact_mod_cast h

theorem inv_pow_lt {a b : ℕ} (h : 2 ^ (b + 1) < 10 ^ a) :
    (10 : ℚ) ^ (-(a : ℤ)) < 2 ^ (-(b : ℤ)) / 2 := by
  have h' : (2 : ℚ) ^ (b + 1) < 10 ^ a := by exact_mod_cast h
  have h2 : (2 : ℚ) ^ (-(b : ℤ)) / 2 = (2 ^ (b + 1))⁻¹ := by
    rw [zpow_neg, zpow_natCast, pow_succ, mul_inv, div_eq_mul_inv]
  rw [h2, zpow_neg, zpow_natCast]
  exact inv_strictAnti₀ (by positivity) h'

theorem lt_half_step : (10 : ℚ) ^ (-324 : ℤ) < 2 ^ (-1074 : ℤ) / 2 :=
  inv_pow_lt (a := 324) (b := 1074) (by decide +kernel)

/-- A numeral with a value near to a double denotes the double. -/
theorem nearest_of_near {c m : ℕ} (hc : 0 < c) {e k : ℤ} (hm : Binary.IsMantissa m k) (h0 : 0 < m)
    (h : Binary.Near ((c : ℚ) * 10 ^ e) m k) :
    nearest c e = Float.ofBits ((k + 1074).toNat * 2 ^ 52 + m).toUInt64 := by
  obtain ⟨h1, h2⟩ := pow_bounds hc e
  obtain ⟨hp, hq⟩ := unscale_pos (by omega : 0 < 10) hc e
  have hv := unscale_value 10 c e
  have hk : (0 : ℚ) < 2 ^ k := by positivity
  have hhi : e + digitCount c < tooLarge := by
    have hlt : (m : ℚ) + 1 ≤ (2 ^ 53 : ℕ) := by exact_mod_cast hm.lt
    have hpow : (2 : ℚ) ^ k ≤ 2 ^ (971 : ℤ) := zpow_le_zpow_right₀ (by norm_num) hm.most
    have hval : (c : ℚ) * 10 ^ e < 10 ^ (309 : ℤ) := by
      push_cast at hlt
      calc (c : ℚ) * 10 ^ e < m * 2 ^ k + 2 ^ k / 2 := h.below
        _ ≤ 2 ^ 53 * 2 ^ k := by nlinarith
        _ ≤ 2 ^ 53 * 2 ^ (971 : ℤ) := by nlinarith
        _ < 10 ^ (309 : ℤ) := two_pow_lt
    have := lt_of_pow_lt (lt_of_le_of_lt h1 hval)
    rw [tooLarge]
    omega
  have hlo : tooSmall < e + digitCount c := by
    have hge : (1 : ℚ) ≤ m := by exact_mod_cast h0
    have hpow : (2 : ℚ) ^ (-1074 : ℤ) ≤ 2 ^ k := zpow_le_zpow_right₀ (by norm_num) hm.least
    have hval : (10 : ℚ) ^ (-324 : ℤ) < c * 10 ^ e := by
      calc (10 : ℚ) ^ (-324 : ℤ) < 2 ^ (-1074 : ℤ) / 2 := lt_half_step
        _ ≤ m * 2 ^ k - 2 ^ k / 2 := by nlinarith
        _ < c * 10 ^ e := h.above
    exact lt_of_pow_lt (lt_trans hval h2)
  rw [nearest_eq hc hlo hhi]
  apply Binary.nearest_of_near hp hq hm
  rw [hv]
  exact_mod_cast h

end Decimal

end Immittance
