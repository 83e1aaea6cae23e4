import Mathlib
import Immittance.Proofs.Decimal.Double

/-!
# Rounding

The whole number nearest to a fraction depends on its value alone. So do the exponent at which a
fraction has its mantissa and the double nearest to it, which is a given double for every fraction
less than half a step away.
-/

set_option autoImplicit false

namespace Immittance

/-! ## Whole numbers -/

theorem roundHalfEven_mul {k : ℕ} (hk : 0 < k) (a b : ℕ) :
    roundHalfEven (k * a) (k * b) = roundHalfEven a b := by
  have h1 : 2 * (k * (a % b)) < k * b ↔ 2 * (a % b) < b := by
    rw [Nat.mul_left_comm, Nat.mul_lt_mul_left hk]
  have h2 : k * b < 2 * (k * (a % b)) ↔ b < 2 * (a % b) := by
    rw [Nat.mul_left_comm, Nat.mul_lt_mul_left hk]
  simp only [roundHalfEven, Nat.mul_div_mul_left a b hk, Nat.mul_mod_mul_left, h1, h2]

theorem roundHalfEven_congr {a b c d : ℕ} (hb : 0 < b) (hd : 0 < d)
    (h : (a : ℚ) / b = (c : ℚ) / d) : roundHalfEven a b = roundHalfEven c d := by
  have hcross : d * a = b * c := by
    have hb' : (b : ℚ) ≠ 0 := by positivity
    have hd' : (d : ℚ) ≠ 0 := by positivity
    rw [div_eq_div_iff hb' hd'] at h
    have : ((d * a : ℕ) : ℚ) = (b * c : ℕ) := by
      push_cast
      linarith
    exact_mod_cast this
  rw [← roundHalfEven_mul hd a b, ← roundHalfEven_mul hb c d, hcross, Nat.mul_comm d b]

theorem roundHalfEven_bounds (a b : ℕ) :
    a / b ≤ roundHalfEven a b ∧ roundHalfEven a b ≤ a / b + 1 := by
  have := Nat.mod_lt (a / b) (by omega : 0 < 2)
  rw [roundHalfEven]
  split_ifs <;> omega

theorem div_eq_div_add (a : ℕ) {b : ℕ} (hb : 0 < b) :
    (a : ℚ) / b = (a / b : ℕ) + ((a % b : ℕ) : ℚ) / b := by
  have hb' : (0 : ℚ) < b := by exact_mod_cast hb
  have ha : (b : ℚ) * (a / b : ℕ) + (a % b : ℕ) = a := by exact_mod_cast Nat.div_add_mod a b
  rw [← ha]
  field_simp

theorem div_le_half_iff {r b : ℕ} (hb : 0 < b) : (r : ℚ) / b ≤ 1 / 2 ↔ 2 * r ≤ b := by
  have hb' : (0 : ℚ) < b := by exact_mod_cast hb
  rw [div_le_div_iff₀ hb' (by norm_num), one_mul, mul_comm]
  exact_mod_cast Iff.rfl

theorem half_le_div_iff {r b : ℕ} (hb : 0 < b) : 1 / 2 ≤ (r : ℚ) / b ↔ b ≤ 2 * r := by
  have hb' : (0 : ℚ) < b := by exact_mod_cast hb
  rw [div_le_div_iff₀ (by norm_num) hb', one_mul, mul_comm]
  exact_mod_cast Iff.rfl

theorem mod_div_lt_one (a : ℕ) {b : ℕ} (hb : 0 < b) : ((a % b : ℕ) : ℚ) / b < 1 := by
  rw [div_lt_one (by exact_mod_cast hb)]
  exact_mod_cast Nat.mod_lt a hb

theorem roundHalfEven_error {a b : ℕ} (hb : 0 < b) :
    |(a : ℚ) / b - roundHalfEven a b| ≤ 1 / 2 := by
  have h0 : (0 : ℚ) ≤ ((a % b : ℕ) : ℚ) / b := by positivity
  have hlt := mod_div_lt_one a hb
  rw [div_eq_div_add a hb, abs_le, roundHalfEven]
  split_ifs with h1 h2
  · have := (div_le_half_iff hb).mpr h1.le
    constructor <;> linarith
  · have := (half_le_div_iff hb).mpr h2.le
    push_cast
    constructor <;> linarith
  · -- the middle of two, of which either is half a step away
    have := (div_le_half_iff hb).mpr (not_lt.mp h2)
    have := (half_le_div_iff hb).mpr (not_lt.mp h1)
    rcases Nat.mod_two_eq_zero_or_one (a / b) with hp | hp
    · rw [hp]
      push_cast
      constructor <;> linarith
    · rw [hp]
      push_cast
      constructor <;> linarith

/-- From the middle of two whole numbers rounding goes to the even one. -/
theorem roundHalfEven_even {a b : ℕ} (hb : 0 < b)
    (h : |(a : ℚ) / b - roundHalfEven a b| = 1 / 2) : roundHalfEven a b % 2 = 0 := by
  have h0 : (0 : ℚ) ≤ ((a % b : ℕ) : ℚ) / b := by positivity
  have hlt := mod_div_lt_one a hb
  rw [div_eq_div_add a hb, abs_eq (by norm_num)] at h
  rw [roundHalfEven] at h ⊢
  split_ifs at h ⊢ with h1 h2
  · have := (half_le_div_iff hb).not.mpr (not_le.mpr h1)
    rcases h with h | h <;> linarith
  · have := (div_le_half_iff hb).not.mpr (not_le.mpr h2)
    push_cast at h
    rcases h with h | h <;> linarith
  · omega

theorem roundHalfEven_eq {a b m : ℕ} (hb : 0 < b) (h : |(a : ℚ) / b - m| < 1 / 2) :
    roundHalfEven a b = m := by
  have he := roundHalfEven_error (a := a) hb
  rw [abs_le] at he
  rw [abs_lt] at h
  have h1 : (roundHalfEven a b : ℚ) < m + 1 := by linarith
  have h2 : (m : ℚ) < roundHalfEven a b + 1 := by linarith
  have h3 : roundHalfEven a b < m + 1 := by exact_mod_cast h1
  have h4 : m < roundHalfEven a b + 1 := by exact_mod_cast h2
  omega

/-! ## Scaling -/

def scale (base num den : ℕ) (e : ℤ) : ℕ × ℕ :=
  if 0 ≤ e then (num, den * base ^ e.toNat) else (num * base ^ (-e).toNat, den)

theorem scale_pos {base : ℕ} (hb : 0 < base) (num : ℕ) {den : ℕ} (hd : 0 < den) (e : ℤ) :
    0 < (scale base num den e).2 := by
  rw [scale]
  split
  · exact Nat.mul_pos hd (Nat.pow_pos hb)
  · exact hd

theorem scale_value (base num den : ℕ) (e : ℤ) :
    ((scale base num den e).1 : ℚ) / (scale base num den e).2 = (num : ℚ) / den / base ^ e := by
  rw [scale]
  split
  · next h =>
    obtain ⟨k, rfl⟩ := Int.eq_ofNat_of_zero_le h
    rw [Int.toNat_natCast, zpow_natCast]
    push_cast
    rw [div_div]
  · next h =>
    obtain ⟨k, hk⟩ := Int.eq_ofNat_of_zero_le (show 0 ≤ -e by omega)
    obtain rfl : e = -(k : ℤ) := by omega
    rw [neg_neg, Int.toNat_natCast, zpow_neg, zpow_natCast]
    push_cast
    rw [div_inv_eq_mul]
    ring

namespace Binary

theorem shifted_pos (num : ℕ) {den : ℕ} (hd : 0 < den) (e : ℤ) : 0 < (shifted num den e).2 :=
  scale_pos (by omega : 0 < 2) num hd e

theorem shifted_value (num den : ℕ) (e : ℤ) :
    ((shifted num den e).1 : ℚ) / (shifted num den e).2 = (num : ℚ) / den / 2 ^ e :=
  scale_value 2 num den e

/-! ## The exponent of a fraction -/

structure IsExponent (v : ℚ) (e : ℤ) : Prop where
  least : -1074 ≤ e
  lt : v < 2 ^ 53 * 2 ^ e
  full : e = -1074 ∨ 2 ^ 52 * 2 ^ e ≤ v

theorem isExponent_unique {v : ℚ} {e d : ℤ} (he : IsExponent v e) (hd : IsExponent v d) : e = d := by
  have key : ∀ {e d : ℤ}, IsExponent v e → IsExponent v d → e ≤ d := by
    intro e d he hd
    by_contra hlt
    have hfull := he.full.resolve_left (by have := hd.least; omega)
    have hpow : (2 : ℚ) ^ (d + 1) ≤ 2 ^ e := zpow_le_zpow_right₀ (by norm_num) (by omega)
    rw [zpow_add_one₀ (by norm_num)] at hpow
    have := hd.lt
    linarith
  exact le_antisymm (key he hd) (key hd he)

/-- A positive fraction lies within a factor of two of the quotient of powers of two. -/
theorem log2_bounds {num den : ℕ} (hn : 0 < num) (hd : 0 < den) :
    (2 : ℚ) ^ ((num.log2 : ℤ) - den.log2 - 1) < (num : ℚ) / den ∧
      (num : ℚ) / den < 2 ^ ((num.log2 : ℤ) - den.log2 + 1) := by
  have hn1 : ((2 ^ num.log2 : ℕ) : ℚ) ≤ num := by exact_mod_cast Nat.log2_self_le hn.ne'
  have hn2 : (num : ℚ) < (2 ^ (num.log2 + 1) : ℕ) := by exact_mod_cast Nat.lt_log2_self
  have hd1 : ((2 ^ den.log2 : ℕ) : ℚ) ≤ den := by exact_mod_cast Nat.log2_self_le hd.ne'
  have hd2 : (den : ℚ) < (2 ^ (den.log2 + 1) : ℕ) := by exact_mod_cast Nat.lt_log2_self
  have hd0 : (0 : ℚ) < den := by exact_mod_cast hd
  push_cast at hn1 hn2 hd1 hd2
  constructor
  · rw [lt_div_iff₀ hd0, zpow_sub₀ (by norm_num), zpow_sub₀ (by norm_num), zpow_natCast,
      zpow_natCast, zpow_one, div_div, div_mul_eq_mul_div, div_lt_iff₀ (by positivity)]
    rw [pow_succ] at hd2
    have : (0 : ℚ) < 2 ^ num.log2 := by positivity
    nlinarith
  · rw [div_lt_iff₀ hd0, zpow_add_one₀ (by norm_num), zpow_sub₀ (by norm_num), zpow_natCast,
      zpow_natCast, div_mul_eq_mul_div, div_mul_eq_mul_div, lt_div_iff₀ (by positivity)]
    rw [pow_succ] at hn2
    have : (0 : ℚ) < 2 ^ den.log2 := by positivity
    nlinarith

theorem isExponent_exponentOf {num den : ℕ} (hn : 0 < num) (hd : 0 < den) :
    IsExponent ((num : ℚ) / den) (exponentOf num den) := by
  obtain ⟨hlo, hhi⟩ := log2_bounds hn hd
  obtain ⟨g, hg⟩ : ∃ g : ℤ, g = (num.log2 : ℤ) - den.log2 - 52 := ⟨_, rfl⟩
  have hpos := shifted_pos num hd g
  have hval := shifted_value num den g
  have hg2 : (0 : ℚ) < 2 ^ g := by positivity
  have hstep : (2 : ℚ) ^ (g - 1) * 2 = 2 ^ g := by
    rw [← zpow_add_one₀ (by norm_num)]
    congr 1
    ring
  -- the value is between 2 ^ 51 and 2 ^ 53 times the guessed power
  have hlo' : 2 ^ 51 * (2 : ℚ) ^ g < (num : ℚ) / den := by
    have : (2 : ℚ) ^ ((num.log2 : ℤ) - den.log2 - 1) = 2 ^ 51 * 2 ^ g := by
      rw [← zpow_natCast, ← zpow_add₀ (by norm_num)]
      congr 1
      push_cast
      omega
    rwa [this] at hlo
  have hhi' : (num : ℚ) / den < 2 ^ 53 * (2 : ℚ) ^ g := by
    have : (2 : ℚ) ^ ((num.log2 : ℤ) - den.log2 + 1) = 2 ^ 53 * 2 ^ g := by
      rw [← zpow_natCast, ← zpow_add₀ (by norm_num)]
      congr 1
      push_cast
      omega
    rwa [this] at hhi
  have hfloor : (shifted num den g).1 / (shifted num den g).2 < Nat.pow 2 52 ↔
      (num : ℚ) / den < 2 ^ 52 * 2 ^ g := by
    have hpos' : (0 : ℚ) < (shifted num den g).2 := by exact_mod_cast hpos
    rw [Nat.div_lt_iff_lt_mul hpos, ← div_lt_iff₀ hg2, ← hval, div_lt_iff₀ hpos', Nat.pow_eq]
    exact_mod_cast Iff.rfl
  have hexp : exponentOf num den = max (if (shifted num den g).1 / (shifted num den g).2 <
      Nat.pow 2 52 then g - 1 else g) (-1074) := by
    rw [hg]
    rfl
  -- the exponent that has a mantissa of fifty-three bits, before it is cut off
  obtain ⟨e, he, h1, h2⟩ : ∃ e : ℤ, exponentOf num den = max e (-1074) ∧
      2 ^ 52 * 2 ^ e ≤ (num : ℚ) / den ∧ (num : ℚ) / den < 2 ^ 53 * 2 ^ e := by
    by_cases h : (num : ℚ) / den < 2 ^ 52 * 2 ^ g
    · rw [if_pos (hfloor.mpr h)] at hexp
      refine ⟨g - 1, hexp, ?_, ?_⟩ <;> linarith
    · rw [if_neg (fun k => h (hfloor.mp k))] at hexp
      exact ⟨g, hexp, not_lt.mp h, hhi'⟩
  rw [he]
  rcases le_total e (-1074) with hle | hle
  · have hpow : (2 : ℚ) ^ e ≤ 2 ^ (-1074 : ℤ) := zpow_le_zpow_right₀ (by norm_num) hle
    rw [max_eq_right hle]
    exact ⟨le_rfl, by linarith, Or.inl rfl⟩
  · rw [max_eq_left hle]
    exact ⟨hle, h2, Or.inr h1⟩

theorem exponentOf_eq {num den : ℕ} (hn : 0 < num) (hd : 0 < den) {e : ℤ}
    (h : IsExponent ((num : ℚ) / den) e) : exponentOf num den = e :=
  isExponent_unique (isExponent_exponentOf hn hd) h

/-! ## The nearest double -/

theorem nearest_eq {num den : ℕ} (hn : 0 < num) :
    nearest num den = Float.ofBits (min ((exponentOf num den + 1074).toNat * 2 ^ 52 +
      roundHalfEven (shifted num den (exponentOf num den)).1
        (shifted num den (exponentOf num den)).2) infinityBits).toUInt64 := by
  rw [nearest, if_neg (by omega)]
  rfl

/-- The nearest double depends on the value of a fraction alone. -/
theorem nearest_congr {a b c d : ℕ} (ha : 0 < a) (hb : 0 < b) (hc : 0 < c) (hd : 0 < d)
    (h : (a : ℚ) / b = (c : ℚ) / d) : nearest a b = nearest c d := by
  have he : exponentOf a b = exponentOf c d := by
    apply exponentOf_eq ha hb
    rw [h]
    exact isExponent_exponentOf hc hd
  have hr : roundHalfEven (shifted a b (exponentOf c d)).1 (shifted a b (exponentOf c d)).2 =
      roundHalfEven (shifted c d (exponentOf c d)).1 (shifted c d (exponentOf c d)).2 := by
    apply roundHalfEven_congr (shifted_pos a hb _) (shifted_pos c hd _)
    rw [shifted_value, shifted_value, h]
  rw [nearest_eq ha, nearest_eq hc, he, hr]

/-- The values that are nearest to a mantissa at an exponent: those less than half a step away, and
less than a quarter of one below the least mantissa that has a full step only above it. -/
structure Near (v : ℚ) (m : ℕ) (e : ℤ) : Prop where
  above : m * 2 ^ e - 2 ^ e / 2 < v
  below : v < m * 2 ^ e + 2 ^ e / 2
  edge : m = 2 ^ 52 → m * 2 ^ e - 2 ^ e / 4 < v

theorem nearest_of_round {num den : ℕ} (hn : 0 < num) (hd : 0 < den) {k : ℕ} {e : ℤ}
    (he : IsExponent ((num : ℚ) / den) e)
    (hk : |(num : ℚ) / den / 2 ^ e - k| < 1 / 2)
    (hi : (e + 1074).toNat * 2 ^ 52 + k ≤ infinityBits) :
    nearest num den = Float.ofBits ((e + 1074).toNat * 2 ^ 52 + k).toUInt64 := by
  rw [← shifted_value] at hk
  rw [nearest_eq hn, exponentOf_eq hn hd he, roundHalfEven_eq (shifted_pos num hd e) hk,
    min_eq_left hi]

theorem nearest_of_near {num den : ℕ} (hn : 0 < num) (hd : 0 < den) {m : ℕ} {e : ℤ}
    (hm : IsMantissa m e) (h : Near ((num : ℚ) / den) m e) :
    nearest num den = Float.ofBits ((e + 1074).toNat * 2 ^ 52 + m).toUInt64 := by
  obtain ⟨hlt, hl, hh, hf⟩ := hm
  obtain ⟨ha, hb, hedge⟩ := h
  have he2 : (0 : ℚ) < 2 ^ e := by positivity
  have hi : infinityBits = 2047 * 2 ^ 52 := rfl
  have hmle : (m : ℚ) ≤ 2 ^ 53 - 1 := by
    have : (m : ℚ) + 1 ≤ (2 ^ 53 : ℕ) := by exact_mod_cast hlt
    push_cast at this
    linarith
  have hv53 : (num : ℚ) / den < 2 ^ 53 * 2 ^ e := by nlinarith
  by_cases hfull : e = -1074 ∨ 2 ^ 52 * 2 ^ e ≤ (num : ℚ) / den
  · apply nearest_of_round hn hd ⟨hl, hv53, hfull⟩
    · rw [abs_lt, lt_sub_iff_add_lt, lt_div_iff₀ he2, sub_lt_iff_lt_add, div_lt_iff₀ he2]
      constructor <;> linarith
    · omega
  · -- just below the least full mantissa, where the steps are half as wide
    obtain ⟨hne, hlt52⟩ := not_or.mp hfull
    have hm52 : m = 2 ^ 52 := by
      have h1 := hf.resolve_left hne
      by_contra h2
      have h3 : ((2 ^ 52 + 1 : ℕ) : ℚ) ≤ m := by exact_mod_cast (by omega : 2 ^ 52 + 1 ≤ m)
      push_cast at h3
      nlinarith
    obtain ⟨d, rfl⟩ : ∃ d : ℤ, e = d + 1 := ⟨e - 1, by ring⟩
    have hd2 : (0 : ℚ) < 2 ^ d := by positivity
    have hed := hedge hm52
    rw [hm52] at hed
    push_cast at hed
    rw [zpow_add_one₀ (by norm_num)] at hed hlt52
    have hexp : IsExponent ((num : ℚ) / den) d :=
      ⟨by omega, by linarith, Or.inr (by linarith)⟩
    have hr : |(num : ℚ) / den / 2 ^ d - (2 ^ 53 : ℕ)| < 1 / 2 := by
      push_cast
      rw [abs_lt, lt_sub_iff_add_lt, lt_div_iff₀ hd2, sub_lt_iff_lt_add, div_lt_iff₀ hd2]
      constructor <;> linarith
    have hbits : (d + 1074).toNat * 2 ^ 52 + 2 ^ 53 = (d + 1 + 1074).toNat * 2 ^ 52 + m := by omega
    rw [nearest_of_round hn hd hexp hr (by omega), hbits]

end Binary

end Immittance
