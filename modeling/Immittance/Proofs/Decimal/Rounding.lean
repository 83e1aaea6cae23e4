import Mathlib
import Immittance.Proofs.Decimal.Value

/-!
# Correct rounding

The correct rounding of a value has the size that is nearest to it, and from the middle of two the one
with the even mantissa. The values half a step above the largest size and beyond are infinite. There
is one correct rounding with a given sign, and the double that a numeral denotes is that of its value.
-/

set_option autoImplicit false

namespace Immittance

namespace Binary

def overflow : ℚ := (2 ^ 53 - 1 / 2) * 2 ^ (971 : ℤ)

inductive Rounds (negative : Bool) (v : ℚ) (x : Float) : Prop
  | infinite (parts : ofFloat x = .infinite negative) (size : overflow ≤ v) : Rounds negative v x
  | finite {m : ℕ} {e : ℤ} (parts : ofFloat x = .finite negative m e) (size : v < overflow)
      (nearest : ∀ k l, IsMantissa k l → |v - m * 2 ^ e| ≤ |v - k * 2 ^ l|)
      (even : ∀ k l, IsMantissa k l → (k : ℚ) * 2 ^ l ≠ m * 2 ^ e →
        |v - m * 2 ^ e| = |v - k * 2 ^ l| → m % 2 = 0) : Rounds negative v x

/-! ## Sizes on a grid -/

theorem exists_multiple (k : ℕ) {e l : ℤ} (h : e ≤ l) : ∃ j : ℕ, (k : ℚ) * 2 ^ l = j * 2 ^ e := by
  obtain ⟨n, rfl⟩ := Int.le.dest h
  refine ⟨k * 2 ^ n, ?_⟩
  rw [zpow_add₀ (by norm_num), zpow_natCast]
  push_cast
  ring

theorem size_le_of_lt {k : ℕ} {e l : ℤ} (hk : IsMantissa k l) (h : l < e) :
    (k : ℚ) * 2 ^ l ≤ 2 ^ 52 * 2 ^ e - 2 ^ e / 2 := by
  have hlt : (k : ℚ) + 1 ≤ (2 ^ 53 : ℕ) := by exact_mod_cast hk.lt
  have hpow : (2 : ℚ) ^ (l + 1) ≤ 2 ^ e := zpow_le_zpow_right₀ (by norm_num) (by omega)
  have hpos : (0 : ℚ) < 2 ^ l := by positivity
  push_cast at hlt
  rw [zpow_add_one₀ (by norm_num)] at hpow
  nlinarith

theorem distance_eq (v j : ℚ) (e : ℤ) : |v - j * 2 ^ e| = |v / 2 ^ e - j| * 2 ^ e := by
  have hpos : (0 : ℚ) < 2 ^ e := by positivity
  have h : v - j * 2 ^ e = (v / 2 ^ e - j) * 2 ^ e := by
    rw [sub_mul, div_mul_cancel₀ _ hpos.ne']
  rw [h, abs_mul, abs_of_pos hpos]

theorem half_le {x : ℚ} {r j : ℕ} (h : |x - r| ≤ 1 / 2) (hj : j ≠ r) : 1 / 2 ≤ |x - j| := by
  rw [abs_le] at h
  rcases lt_or_gt_of_ne hj with hlt | hlt
  · have : (j : ℚ) + 1 ≤ r := by exact_mod_cast hlt
    exact le_abs.mpr (Or.inl (by linarith))
  · have : (r : ℚ) + 1 ≤ j := by exact_mod_cast hlt
    exact le_abs.mpr (Or.inr (by linarith))

/-- A size other than the rounded one is at least half a step away. -/
theorem half_step_le {v : ℚ} {e : ℤ} {r : ℕ} (he : IsExponent v e) (hr : |v / 2 ^ e - r| ≤ 1 / 2)
    {k : ℕ} {l : ℤ} (hk : IsMantissa k l) (hne : (k : ℚ) * 2 ^ l ≠ r * 2 ^ e) :
    2 ^ e / 2 ≤ |v - k * 2 ^ l| := by
  have hpos : (0 : ℚ) < 2 ^ e := by positivity
  rcases le_or_gt e l with h | h
  · obtain ⟨j, hj⟩ := exists_multiple k h
    have hjr : j ≠ r := by
      rintro rfl
      exact hne hj
    have := mul_le_mul_of_nonneg_right (half_le hr hjr) hpos.le
    rw [hj, distance_eq]
    linarith
  · have hfull := he.full.resolve_left (by have := hk.least; omega)
    have := size_le_of_lt hk h
    exact le_abs.mpr (Or.inl (by linarith))

/-! ## Rounding -/

theorem ofFloat_ofBits_mantissa {m : ℕ} {e : ℤ} (h : IsMantissa m e) :
    ofFloat (Float.ofBits ((e + 1074).toNat * 2 ^ 52 + m).toUInt64) = .finite false m e := by
  have hi : infinityBits = 2047 * 2 ^ 52 := rfl
  have hbits : (Binary.finite false m e).bits = (e + 1074).toNat * 2 ^ 52 + m := Nat.zero_add _
  have := h.lt
  have := h.most
  rw [ofFloat_ofBits (by omega), ← hbits, ofNat_bits (b := .finite false m e) h]

/-- The rounded size has a mantissa: its own, or half of it at the next exponent if it is the next
power of two. -/
theorem exists_mantissa {r : ℕ} {e : ℤ} (hlt : r ≤ 2 ^ 53) (hl : -1074 ≤ e)
    (hf : e = -1074 ∨ 2 ^ 52 ≤ r) (hi : (e + 1074).toNat * 2 ^ 52 + r < infinityBits) :
    ∃ m k, IsMantissa m k ∧ (k + 1074).toNat * 2 ^ 52 + m = (e + 1074).toNat * 2 ^ 52 + r ∧
      (m : ℚ) * 2 ^ k = r * 2 ^ e ∧ (r % 2 = 0 → m % 2 = 0) := by
  have hb : infinityBits = 2047 * 2 ^ 52 := rfl
  rcases hlt.lt_or_eq with h | rfl
  · exact ⟨r, e, ⟨h, hl, by omega, hf⟩, rfl, rfl, id⟩
  · refine ⟨2 ^ 52, e + 1, ⟨by omega, by omega, by omega, Or.inr le_rfl⟩, by omega, ?_, by omega⟩
    rw [zpow_add_one₀ (by norm_num)]
    push_cast
    ring

/-- The rounded mantissa has fifty-three bits, or is the next power of two. -/
theorem mantissa_bounds {v : ℚ} {e : ℤ} {r : ℕ} (he : IsExponent v e)
    (hr : |v / 2 ^ e - r| ≤ 1 / 2) : r ≤ 2 ^ 53 ∧ (e = -1074 ∨ 2 ^ 52 ≤ r) := by
  have hpos : (0 : ℚ) < 2 ^ e := by positivity
  have hlt := (div_lt_iff₀ hpos).mpr he.lt
  rw [abs_le] at hr
  constructor
  · have : (r : ℚ) < (2 ^ 53 + 1 : ℕ) := by
      push_cast
      linarith
    exact Nat.lt_succ_iff.mp (by exact_mod_cast this)
  · refine he.full.imp_right fun h => ?_
    have hle := (le_div_iff₀ hpos).mpr h
    have : ((2 ^ 52 : ℕ) : ℚ) < (r + 1 : ℕ) := by
      push_cast
      linarith
    exact Nat.lt_succ_iff.mp (by exact_mod_cast this)

/-- A value overflows exactly when its bits reach those of infinity. -/
theorem lt_overflow_iff {v : ℚ} {e : ℤ} {r : ℕ} (he : IsExponent v e)
    (hr : |v / 2 ^ e - r| ≤ 1 / 2) (heven : |v / 2 ^ e - r| = 1 / 2 → r % 2 = 0) :
    v < overflow ↔ (e + 1074).toNat * 2 ^ 52 + r < infinityBits := by
  have hb : infinityBits = 2047 * 2 ^ 52 := rfl
  have hleast := he.least
  obtain ⟨hle, hf⟩ := mantissa_bounds he hr
  rcases lt_trichotomy e 971 with h | rfl | h
  · have hpow : (2 : ℚ) ^ (e + 1) ≤ 2 ^ (971 : ℤ) := zpow_le_zpow_right₀ (by norm_num) (by omega)
    have hpos : (0 : ℚ) < 2 ^ e := by positivity
    have hlt := he.lt
    rw [zpow_add_one₀ (by norm_num)] at hpow
    have hv : v < overflow := by
      rw [overflow]
      generalize (2 : ℚ) ^ (971 : ℤ) = top at *
      linarith
    exact iff_of_true hv (by omega)
  · have hpos : (0 : ℚ) < 2 ^ (971 : ℤ) := by positivity
    have hr' := abs_le.mp hr
    rw [overflow, ← div_lt_iff₀ hpos]
    constructor
    · intro hv
      have : (r : ℚ) < (2 ^ 53 : ℕ) := by
        push_cast
        linarith
      have : r < 2 ^ 53 := by exact_mod_cast this
      omega
    · intro hi
      have hlt : r < 2 ^ 53 := by omega
      have hr1 : (r : ℚ) + 1 ≤ (2 ^ 53 : ℕ) := by exact_mod_cast hlt
      push_cast at hr1
      refine lt_of_le_of_ne (by linarith) fun hv => ?_
      -- in the middle the mantissa would be the largest one, which is odd
      have hmax : (r : ℚ) = (2 ^ 53 - 1 : ℕ) := by
        push_cast
        linarith
      have hmax : r = 2 ^ 53 - 1 := by exact_mod_cast hmax
      have hhalf : v / 2 ^ (971 : ℤ) - r = 1 / 2 := by
        rw [hv, hmax]
        push_cast
        ring
      have := heven (by rw [hhalf, abs_of_pos (by norm_num)])
      omega
  · have hpow : (2 : ℚ) ^ (971 + 1 : ℤ) ≤ 2 ^ e := zpow_le_zpow_right₀ (by norm_num) (by omega)
    have hpos : (0 : ℚ) < 2 ^ (971 : ℤ) := by positivity
    have hfull := he.full.resolve_left (by omega)
    rw [zpow_add_one₀ (by norm_num)] at hpow
    have hv : overflow ≤ v := by
      rw [overflow]
      generalize (2 : ℚ) ^ (971 : ℤ) = top at *
      linarith
    exact iff_of_false (not_lt.mpr hv) (by omega)

/-- The bits of the nearest mantissa at the exponent of a value are those of its rounding. -/
theorem rounds_ofBits {v : ℚ} {e : ℤ} {r : ℕ} (he : IsExponent v e) (hr : |v / 2 ^ e - r| ≤ 1 / 2)
    (heven : |v / 2 ^ e - r| = 1 / 2 → r % 2 = 0) :
    Rounds false v (Float.ofBits (min ((e + 1074).toNat * 2 ^ 52 + r) infinityBits).toUInt64) := by
  have hpos : (0 : ℚ) < 2 ^ e := by positivity
  have hiff := lt_overflow_iff he hr heven
  by_cases hi : (e + 1074).toNat * 2 ^ 52 + r < infinityBits
  · obtain ⟨hle, hf⟩ := mantissa_bounds he hr
    obtain ⟨m, k, hm, hbits, hsize, hmeven⟩ := exists_mantissa hle he.least hf hi
    have hdist : |v - m * 2 ^ k| ≤ 2 ^ e / 2 := by
      have := mul_le_mul_of_nonneg_right hr hpos.le
      rw [hsize, distance_eq]
      linarith
    rw [min_eq_left hi.le, ← hbits]
    refine .finite (ofFloat_ofBits_mantissa hm) (hiff.mpr hi) (fun j l hj => ?_)
      (fun j l hj hne htie => hmeven (heven ?_))
    · by_cases hne : (j : ℚ) * 2 ^ l = r * 2 ^ e
      · rw [hne, hsize]
      · exact hdist.trans (half_step_le he hr hj hne)
    · have := half_step_le he hr hj (by rwa [← hsize])
      rw [← htie, hsize, distance_eq] at this
      exact le_antisymm hr (le_of_mul_le_mul_right (by linarith) hpos)
  · rw [min_eq_right (not_lt.mp hi)]
    exact .infinite (ofFloat_ofBits le_rfl) (not_lt.mp fun h => hi (hiff.mp h))

theorem rounds_nearest {num den : ℕ} (hn : 0 < num) (hd : 0 < den) :
    Rounds false ((num : ℚ) / den) (nearest num den) := by
  have hpos := shifted_pos num hd (exponentOf num den)
  rw [nearest_eq hn]
  refine rounds_ofBits (isExponent_exponentOf hn hd) ?_ ?_
  · rw [← shifted_value]
    exact roundHalfEven_error hpos
  · rw [← shifted_value]
    exact roundHalfEven_even hpos

/-! ## Signs -/

theorem Rounds.neg {v : ℚ} {x : Float} (h : Rounds false v x) : Rounds true v (-x) := by
  cases h with
  | infinite parts size => exact .infinite (by rw [ofFloat_opposite, parts]; rfl) size
  | finite parts size nearest even => exact .finite (ofFloat_neg parts) size nearest even

/-! ## Uniqueness -/

theorem succ_mantissa {m : ℕ} {e : ℤ} (h : IsMantissa m e) (heven : m % 2 = 0) :
    IsMantissa (m + 1) e := by
  obtain ⟨hlt, hl, hh, hf⟩ := h
  exact ⟨by omega, hl, hh, by omega⟩

/-- Between a size and the size next to it there is no other. -/
theorem succ_size_le {m k : ℕ} {e l : ℤ} (hm : IsMantissa m e) (hk : IsMantissa k l)
    (h : (m : ℚ) * 2 ^ e < k * 2 ^ l) : ((m + 1 : ℕ) : ℚ) * 2 ^ e ≤ k * 2 ^ l := by
  have hpos : (0 : ℚ) < 2 ^ e := by positivity
  rcases le_or_gt e l with hel | hel
  · obtain ⟨j, hj⟩ := exists_multiple k hel
    rw [hj] at h ⊢
    have hmj : m < j := by exact_mod_cast lt_of_mul_lt_mul_right h hpos.le
    exact mul_le_mul_of_nonneg_right (by exact_mod_cast hmj) hpos.le
  · exfalso
    have hfull : (2 : ℚ) ^ 52 ≤ m := by
      exact_mod_cast hm.full.resolve_left (by have := hk.least; omega)
    have hle := size_le_of_lt hk hel
    nlinarith

theorem mantissa_unique {m k : ℕ} {e l : ℤ} (hm : IsMantissa m e) (hk : IsMantissa k l)
    (h : (m : ℚ) * 2 ^ e = k * 2 ^ l) : m = k ∧ e = l := by
  have key : ∀ {m k : ℕ} {e l : ℤ}, IsMantissa m e → IsMantissa k l →
      (m : ℚ) * 2 ^ e = k * 2 ^ l → l ≤ e := by
    intro m k e l hm hk h
    by_contra hlt
    have hpos : (0 : ℚ) < 2 ^ l := by positivity
    have hfull : (2 : ℚ) ^ 52 ≤ k := by
      exact_mod_cast hk.full.resolve_left (by have := hm.least; omega)
    have hle := size_le_of_lt hm (not_le.mp hlt)
    nlinarith
  obtain rfl : e = l := le_antisymm (key hk hm h.symm) (key hm hk h)
  have hpos : (2 : ℚ) ^ e ≠ 0 := by positivity
  exact ⟨by exact_mod_cast mul_right_cancel₀ hpos h, rfl⟩

/-- Of two sizes nearest to a value the second is not the larger one if both mantissas are even. -/
theorem size_le_of_nearest {v : ℚ} {m k : ℕ} {e l : ℤ} (hm : IsMantissa m e) (hk : IsMantissa k l)
    (hnearest : ∀ j i, IsMantissa j i → |v - m * 2 ^ e| ≤ |v - j * 2 ^ i|)
    (htie : |v - m * 2 ^ e| = |v - k * 2 ^ l|) (hme : m % 2 = 0) (hke : k % 2 = 0) :
    (k : ℚ) * 2 ^ l ≤ m * 2 ^ e := by
  by_contra hlt
  push Not at hlt
  have hsucc := succ_mantissa hm hme
  have hpos : (0 : ℚ) < 2 ^ e := by positivity
  have hstep : ((m + 1 : ℕ) : ℚ) * 2 ^ e = m * 2 ^ e + 2 ^ e := by
    push_cast
    ring
  rcases (succ_size_le hm hk hlt).lt_or_eq with h | h
  · -- the size between the two would be nearer
    have hnear := hnearest (m + 1) e hsucc
    have hv : v - m * 2 ^ e = -(v - k * 2 ^ l) :=
      (abs_eq_abs.mp htie).resolve_left fun h => by linarith
    rw [hstep] at h hnear
    rw [abs_of_pos (by linarith : 0 < v - m * 2 ^ e)] at hnear
    have hlt : |v - (m * 2 ^ e + 2 ^ e)| < v - m * 2 ^ e := abs_lt.mpr ⟨by linarith, by linarith⟩
    exact absurd hnear (not_le.mpr hlt)
  · obtain ⟨rfl, -⟩ := mantissa_unique hsucc hk h
    omega

/-- There is one correct rounding. -/
theorem Rounds.unique {negative : Bool} {v : ℚ} {x y : Float} (hx : Rounds negative v x)
    (hy : Rounds negative v y) : x = y := by
  apply ofFloat_injective
  cases hx with
  | infinite hxp hxs =>
    cases hy with
    | infinite hyp _ => rw [hxp, hyp]
    | finite _ hys _ _ => exact absurd hxs (not_le.mpr hys)
  | @finite m e hxp hxs hxn hxe =>
    cases hy with
    | infinite _ hys => exact absurd hys (not_le.mpr hxs)
    | @finite k l hyp hys hyn hye =>
      have hm := isMantissa_of_finite hxp
      have hk := isMantissa_of_finite hyp
      have htie := le_antisymm (hxn k l hk) (hyn m e hm)
      have hsize : (m : ℚ) * 2 ^ e = k * 2 ^ l := by
        by_contra hne
        have hme := hxe k l hk (Ne.symm hne) htie
        have hke := hye m e hm hne htie.symm
        exact hne (le_antisymm (size_le_of_nearest hk hm hyn htie.symm hke hme)
          (size_le_of_nearest hm hk hxn htie hme hke))
      obtain ⟨rfl, rfl⟩ := mantissa_unique hm hk hsize
      rw [hxp, hyp]

end Binary

/-! ## Numerals -/

namespace Decimal

def size (d : Decimal) : ℚ := d.coefficient * 10 ^ d.exponent

theorem rounds_zero {v : ℚ} (h0 : 0 ≤ v) (hv : v < 2 ^ (-1074 : ℤ) / 2) :
    Binary.Rounds false v (Float.ofBits 0) := by
  have hpos : (0 : ℚ) < 2 ^ (-1074 : ℤ) := by positivity
  have hhalf : |v / 2 ^ (-1074 : ℤ) - (0 : ℕ)| < 1 / 2 := by
    rw [Nat.cast_zero, sub_zero, abs_of_nonneg (by positivity), div_lt_iff₀ hpos]
    linarith
  have h := Binary.rounds_ofBits (e := -1074) (r := 0) ⟨le_rfl, by linarith, Or.inl rfl⟩ hhalf.le
    fun h => absurd h hhalf.ne
  have hbits : min ((-1074 + 1074 : ℤ).toNat * 2 ^ 52 + 0) Binary.infinityBits = 0 := by decide
  rwa [hbits] at h

theorem rounds_infinity {v : ℚ} (h : Binary.overflow ≤ v) :
    Binary.Rounds false v (Float.ofBits Binary.infinityBits.toUInt64) :=
  .infinite (Binary.ofFloat_ofBits le_rfl) h

theorem overflow_lt : Binary.overflow < 10 ^ (309 : ℤ) := by
  have hpos : (0 : ℚ) < 2 ^ (971 : ℤ) := by positivity
  refine lt_of_le_of_lt ?_ two_pow_lt
  rw [Binary.overflow]
  exact mul_le_mul_of_nonneg_right (by norm_num) hpos.le

theorem rounds_nearest (c : ℕ) (e : ℤ) : Binary.Rounds false ((c : ℚ) * 10 ^ e) (nearest c e) := by
  rcases Nat.eq_zero_or_pos c with rfl | hc
  · rw [nearest, if_pos rfl, Nat.cast_zero, zero_mul]
    exact rounds_zero le_rfl (by positivity)
  · obtain ⟨hlo, hhi⟩ := pow_bounds hc e
    by_cases hlarge : tooLarge ≤ e + digitCount c
    · have hpow : (10 : ℚ) ^ (309 : ℤ) ≤ 10 ^ (e + digitCount c - 1) :=
        zpow_le_zpow_right₀ (by norm_num) (by rw [tooLarge] at hlarge; omega)
      rw [nearest, if_neg (by omega), if_pos hlarge]
      exact rounds_infinity ((overflow_lt.le.trans hpow).trans hlo)
    · by_cases hsmall : e + digitCount c ≤ tooSmall
      · have hpow : (10 : ℚ) ^ (e + digitCount c) ≤ 10 ^ (-324 : ℤ) :=
          zpow_le_zpow_right₀ (by norm_num) hsmall
        rw [nearest, if_neg (by omega), if_neg hlarge, if_pos hsmall]
        exact rounds_zero (by positivity) (by linarith [lt_half_step])
      · obtain ⟨hn, hd⟩ := unscale_pos (by omega : 0 < 10) hc e
        have h := Binary.rounds_nearest hn hd
        rw [unscale_value] at h
        rw [nearest_eq hc (not_le.mp hsmall) (not_le.mp hlarge)]
        exact_mod_cast h

theorem rounds_toFloat (d : Decimal) : Binary.Rounds d.negative d.size d.toFloat := by
  have h := rounds_nearest d.coefficient d.exponent
  rw [toFloat, size]
  cases d.negative with
  | false => rwa [if_neg Bool.false_ne_true]
  | true =>
    rw [if_pos rfl]
    exact h.neg

end Decimal

end Immittance
