import Mathlib
import Immittance.Proofs.Decimal.Rounding

/-!
# Mantissas with a residue

The arithmetic of doubles computes a whole mantissa and, of what is left of the exact result above it,
only whether it is nothing, less than a half, a half or more. This is enough to round. The mantissa is
shifted to the exponent of the result, the residue with it, and rounded to the nearest one; the double
made of it is the correct rounding of the exact result.
-/

set_option autoImplicit false

namespace Immittance

open Float.Model Float.Model.UnpackedFloat

namespace Binary

def Locates : Accuracy → ℚ → Prop
  | .exact, t => t = 0
  | .inexact .lt, t => 0 < t ∧ t < 1 / 2
  | .inexact .eq, t => t = 1 / 2
  | .inexact .gt, t => 1 / 2 < t ∧ t < 1

theorem Locates.bounds {a : Accuracy} {t : ℚ} (h : Locates a t) : 0 ≤ t ∧ t < 1 := by
  match a, h with
  | .exact, h =>
    rw [show t = 0 from h]
    norm_num
  | .inexact .lt, h => exact ⟨h.1.le, h.2.trans (by norm_num)⟩
  | .inexact .eq, h =>
    rw [show t = 1 / 2 from h]
    norm_num
  | .inexact .gt, h => exact ⟨by linarith [h.1], h.2⟩

theorem locates_accuracyOfFraction {r d : ℕ} (h : r < d) :
    Locates (accuracyOfFraction r d) ((r : ℚ) / d) := by
  have hd : (0 : ℚ) < d := by exact_mod_cast Nat.zero_lt_of_lt h
  have hlt : (r : ℚ) < d := by exact_mod_cast h
  rw [accuracyOfFraction]
  by_cases h0 : r = 0
  · rw [if_pos h0, h0]
    show ((0 : ℕ) : ℚ) / d = 0
    simp
  · rw [if_neg h0]
    have hr : (0 : ℚ) < r := by exact_mod_cast Nat.pos_of_ne_zero h0
    rcases lt_trichotomy (2 * r) d with hc | hc | hc
    · rw [Nat.compare_eq_lt.mpr hc]
      have : 2 * (r : ℚ) < d := by exact_mod_cast hc
      exact ⟨by positivity, by rw [div_lt_div_iff₀ hd (by norm_num)]; linarith⟩
    · rw [Nat.compare_eq_eq.mpr hc]
      have : 2 * (r : ℚ) = d := by exact_mod_cast hc
      show (r : ℚ) / d = 1 / 2
      rw [← this]
      field_simp
    · rw [Nat.compare_eq_gt.mpr hc]
      have : (d : ℚ) < 2 * r := by exact_mod_cast hc
      exact ⟨by rw [div_lt_div_iff₀ (by norm_num) hd]; linarith, by rwa [div_lt_one hd]⟩

def StandsFor : ExtendedMantissa → ℚ → Prop
  | ⟨m, false, false⟩, x => x = m
  | ⟨m, false, true⟩, x => m < x ∧ x < m + 1 / 2
  | ⟨m, true, false⟩, x => x = m + 1 / 2
  | ⟨m, true, true⟩, x => m + 1 / 2 < x ∧ x < m + 1

theorem standsFor_ofMantissaAndAccuracy {m : ℕ} {a : Accuracy} {x : ℚ} (h : Locates a (x - m)) :
    StandsFor (.ofMantissaAndAccuracy m a) x := by
  match a, h with
  | .exact, h => exact sub_eq_zero.mp h
  | .inexact .lt, h => exact ⟨by linarith [h.1], by linarith [h.2]⟩
  | .inexact .eq, h => exact sub_eq_iff_eq_add'.mp h
  | .inexact .gt, h => exact ⟨by linarith [h.1], by linarith [h.2]⟩

/-! ## Shifting -/

/-- One shift halves the number: the lowest bit of the mantissa becomes the round bit, and what the
old round bit said is only remembered as more than nothing. -/
theorem StandsFor.shiftRightOne {em : ExtendedMantissa} {x : ℚ} (h : StandsFor em x) :
    StandsFor em.shiftRightOne (x / 2) := by
  obtain ⟨m, r, s⟩ := em
  obtain ⟨k, rfl | rfl⟩ := m.even_or_odd'
  · have hshift : ExtendedMantissa.shiftRightOne ⟨2 * k, r, s⟩ = ⟨k, false, r || s⟩ := by
      simp [ExtendedMantissa.shiftRightOne]
    rw [hshift]
    match r, s with
    | false, false =>
      simp only [StandsFor, Bool.or_self] at h ⊢
      push_cast at h
      linarith
    | false, true | true, false | true, true =>
      simp only [StandsFor, Bool.or_true, Bool.or_false] at h ⊢
      push_cast at h
      constructor <;> linarith
  · have hshift : ExtendedMantissa.shiftRightOne ⟨2 * k + 1, r, s⟩ = ⟨k, true, r || s⟩ := by
      simp [ExtendedMantissa.shiftRightOne, Nat.add_div]
    rw [hshift]
    match r, s with
    | false, false =>
      simp only [StandsFor, Bool.or_self] at h ⊢
      push_cast at h
      linarith
    | false, true | true, false | true, true =>
      simp only [StandsFor, Bool.or_true, Bool.or_false] at h ⊢
      push_cast at h
      constructor <;> linarith

theorem StandsFor.shiftRight {em : ExtendedMantissa} {x : ℚ} (h : StandsFor em x) (n : ℕ) :
    StandsFor (em >>> n) (x / 2 ^ n) := by
  show StandsFor (n.repeat ExtendedMantissa.shiftRightOne em) _
  induction n with
  | zero =>
    rw [pow_zero, div_one]
    exact h
  | succ n ih =>
    rw [pow_succ, ← div_div]
    exact ih.shiftRightOne

/-! ## Rounding the mantissa -/

theorem StandsFor.error {em : ExtendedMantissa} {x : ℚ} (h : StandsFor em x) :
    |x - em.roundedMantissa| ≤ 1 / 2 := by
  rw [abs_le]
  match em, h with
  | ⟨m, false, false⟩, h =>
    obtain rfl : x = m := h
    show -(1 / 2) ≤ (m : ℚ) - m ∧ (m : ℚ) - m ≤ 1 / 2
    constructor <;> linarith
  | ⟨m, false, true⟩, h =>
    obtain ⟨hlo, hhi⟩ := h
    show -(1 / 2) ≤ x - m ∧ x - m ≤ 1 / 2
    constructor <;> linarith
  | ⟨m, true, false⟩, h =>
    obtain rfl : x = m + 1 / 2 := h
    show -(1 / 2) ≤ (m : ℚ) + 1 / 2 - (m + m % 2 : ℕ) ∧ (m : ℚ) + 1 / 2 - (m + m % 2 : ℕ) ≤ 1 / 2
    rcases Nat.mod_two_eq_zero_or_one m with hp | hp
    · rw [hp, add_zero]
      constructor <;> linarith
    · rw [hp]
      push_cast
      constructor <;> linarith
  | ⟨m, true, true⟩, h =>
    obtain ⟨hlo, hhi⟩ := h
    show -(1 / 2) ≤ x - (m + 1 : ℕ) ∧ x - (m + 1 : ℕ) ≤ 1 / 2
    push_cast
    constructor <;> linarith

theorem StandsFor.even {em : ExtendedMantissa} {x : ℚ} (h : StandsFor em x)
    (htie : |x - em.roundedMantissa| = 1 / 2) : em.roundedMantissa % 2 = 0 := by
  rw [abs_eq (by norm_num)] at htie
  match em, h, htie with
  | ⟨m, false, false⟩, h, htie =>
    obtain rfl : x = m := h
    change (m : ℚ) - m = 1 / 2 ∨ (m : ℚ) - m = -(1 / 2) at htie
    rcases htie with htie | htie <;> linarith
  | ⟨m, false, true⟩, h, htie =>
    obtain ⟨hlo, hhi⟩ := h
    change x - m = 1 / 2 ∨ x - m = -(1 / 2) at htie
    rcases htie with htie | htie <;> linarith
  | ⟨m, true, false⟩, h, htie =>
    show (m + m % 2) % 2 = 0
    omega
  | ⟨m, true, true⟩, h, htie =>
    obtain ⟨hlo, hhi⟩ := h
    change x - (m + 1 : ℕ) = 1 / 2 ∨ x - (m + 1 : ℕ) = -(1 / 2) at htie
    push_cast at htie
    rcases htie with htie | htie <;> linarith

/-! ## The exponent of the result -/

def target (m : ℕ) (e : ℤ) : ℤ := max (m.log2 + e - 52) (-1074)

theorem targetExponent_eq (m : ℕ) (e : ℤ) :
    Format.binary64.targetExponent (totalExponent m e) = target m e := by
  show max ((m.log2 : ℤ) + 1 + e - 53) (-1074) = max ((m.log2 : ℤ) + e - 52) (-1074)
  congr 1
  ring

/-- A mantissa of a result, exact or not, is long enough to be rounded: it has fifty-three bits, or
reaches down to the least exponent. -/
def Reaches (m : ℕ) (e : ℤ) : Prop := 2 ^ 52 ≤ m ∨ e ≤ -1074

theorem Reaches.le_target {m : ℕ} {e : ℤ} (h : Reaches m e) : e ≤ target m e := by
  rw [target]
  rcases h with h | h
  · have := (Nat.le_log2 (by omega : m ≠ 0)).mpr h
    omega
  · omega

theorem isExponent_target {m : ℕ} {e : ℤ} {v : ℚ} (h : Reaches m e) (hlo : (m : ℚ) * 2 ^ e ≤ v)
    (hhi : v < (m + 1) * 2 ^ e) : IsExponent v (target m e) := by
  have he : (0 : ℚ) < 2 ^ e := by positivity
  rcases Nat.eq_zero_or_pos m with rfl | hm
  · have hle : e ≤ -1074 := h.resolve_left (by omega)
    have ht : target 0 e = -1074 := by
      rw [target, Nat.log2_zero]
      omega
    have hpow : (2 : ℚ) ^ e ≤ 2 ^ (-1074 : ℤ) := zpow_le_zpow_right₀ (by norm_num) hle
    rw [Nat.cast_zero, zero_add, one_mul] at hhi
    rw [ht]
    exact ⟨le_rfl, by linarith, Or.inl rfl⟩
  · have h1 : ((2 ^ m.log2 : ℕ) : ℚ) ≤ m := by exact_mod_cast Nat.log2_self_le hm.ne'
    have h2 : (m : ℚ) + 1 ≤ (2 ^ (m.log2 + 1) : ℕ) := by exact_mod_cast Nat.lt_log2_self
    have hfull : (2 : ℚ) ^ 52 * 2 ^ ((m.log2 : ℤ) + e - 52) = (2 ^ m.log2 : ℕ) * 2 ^ e := by
      push_cast
      rw [← zpow_natCast 2 52, ← zpow_natCast 2 m.log2, ← zpow_add₀ (by norm_num),
        ← zpow_add₀ (by norm_num)]
      congr 1
      push_cast
      ring
    have hlt : v < 2 ^ 53 * 2 ^ ((m.log2 : ℤ) + e - 52) := by
      have := mul_le_mul_of_nonneg_right h2 he.le
      rw [pow_succ] at this
      push_cast at this hfull
      linarith
    have hpow : (2 : ℚ) ^ ((m.log2 : ℤ) + e - 52) ≤ 2 ^ target m e :=
      zpow_le_zpow_right₀ (by norm_num) (le_max_left _ _)
    refine ⟨le_max_right _ _, by linarith, ?_⟩
    rcases max_choice ((m.log2 : ℤ) + e - 52) (-1074) with hc | hc
    · right
      rw [target, hc, hfull]
      exact (mul_le_mul_of_nonneg_right h1 he.le).trans hlo
    · exact Or.inl hc

/-- A rounded mantissa that got a bit more is halved, which is exact, at the next exponent. -/
theorem shift_carry {r : ℕ} {t : ℤ} (hr : r ≤ 2 ^ 53) (ht : -1074 ≤ t)
    (hf : t = -1074 ∨ 2 ^ 52 ≤ r) : ∃ m k, shiftToTargetExponent Format.binary64 r t .exact =
      (⟨m, false, false⟩, k) ∧ m < 2 ^ 53 ∧ -1074 ≤ k ∧ (k = -1074 ∨ 2 ^ 52 ≤ m) ∧
      (k + 1074).toNat * 2 ^ 52 + m = (t + 1074).toNat * 2 ^ 52 + r := by
  rw [shiftToTargetExponent, targetExponent_eq, shiftToExponent]
  rcases hr.lt_or_eq with hlt | rfl
  · have htarget : target r t = t := by
      rw [target]
      by_cases hfull : 2 ^ 52 ≤ r
      · have := (Nat.le_log2 (by omega : r ≠ 0)).mpr hfull
        have := (Nat.log2_lt (by omega : r ≠ 0)).mpr hlt
        omega
      · rcases Nat.eq_zero_or_pos r with rfl | hpos
        · rw [Nat.log2_zero]
          omega
        · have := (Nat.log2_lt hpos.ne').mpr (not_le.mp hfull)
          omega
    rw [htarget, sub_self, Int.toNat_zero, Nat.cast_zero, add_zero]
    exact ⟨r, t, rfl, hlt, ht, hf, rfl⟩
  · have htarget : target (2 ^ 53) t = t + 1 := by
      rw [target, Nat.log2_two_pow]
      omega
    have hone : (t + 1 - t).toNat = 1 := by omega
    rw [htarget, hone, Nat.cast_one]
    exact ⟨2 ^ 52, t + 1, rfl, by omega, by omega, Or.inr le_rfl, by omega⟩

/-! ## The double of the result -/

theorem ofFloat_pack {b : Binary} (h : b.Canonical) :
    ofFloat (.ofModel (.pack b.unpacked)) = b := by
  rw [ofFloat_eq, toBits_pack h, ofNat_bits h]

theorem ofFloat_pack_large (negative : Bool) {m : ℕ} {e : ℤ} (hm : 0 < m) (he : 971 < e) :
    ofFloat (.ofModel (.pack (Binary.finite negative m e).unpacked)) = .infinite negative := by
  have hlarge : 2 ^ Format.binary64.exponentBits ≤ (e + (Format.binary64.exponentBias : ℕ) +
      (Format.binary64.mantissaBitsWithoutImplicit : ℕ)).toNat + 1 := by
    show 2048 ≤ (e + 1023 + 52).toNat + 1
    omega
  have hpack : Float.ofModel (.pack (Binary.finite negative m e).unpacked) =
      .ofModel (.pack (Binary.infinite negative).unpacked) := by
    apply eq_of_toBits
    show (UnpackedFloat.pack Format.binary64 _).toNat = (UnpackedFloat.pack Format.binary64 _).toNat
    have hparts : (Binary.finite negative m e).unpacked = .finite (sign negative) m e hm :=
      dif_pos hm
    rw [hparts, UnpackedFloat.pack]
    dsimp only
    rw [if_pos hlarge]
    rfl
  rw [hpack]
  exact ofFloat_pack (b := .infinite negative) trivial

theorem Rounds.withSign {v : ℚ} {x y : Float} {negative : Bool} (h : Rounds false v x)
    (hy : ∀ b, ofFloat x = b → ofFloat y = match b with
      | .nan => .nan
      | .infinite _ => .infinite negative
      | .finite _ m e => .finite negative m e) : Rounds negative v y := by
  cases h with
  | infinite parts size => exact .infinite (hy _ parts) size
  | finite parts size nearest even => exact .finite (hy _ parts) size nearest even

theorem unpacked_of_parts (negative : Bool) (m : ℕ) (e : ℤ) :
    (if h : m = 0 then UnpackedFloat.zero (sign negative)
      else .finite (sign negative) m e (Nat.pos_of_ne_zero h)) =
      (Binary.finite negative m e).unpacked := by
  rw [unpacked]
  by_cases h : m = 0
  · rw [dif_pos h, dif_neg (by omega)]
  · rw [dif_neg h, dif_pos (Nat.pos_of_ne_zero h)]

/-- What is computed as a mantissa with a residue is rounded correctly. -/
theorem rounds_roundWithAccuracy (negative : Bool) {m : ℕ} {e : ℤ} {a : Accuracy} {v : ℚ}
    (hm : Reaches m e) (h : Locates a (v / 2 ^ e - m)) :
    Rounds negative v
      (.ofModel (.pack (roundWithAccuracy Format.binary64 (sign negative) m e a))) := by
  have he : (0 : ℚ) < 2 ^ e := by positivity
  obtain ⟨h0, h1⟩ := h.bounds
  have hlo : (m : ℚ) * 2 ^ e ≤ v := (le_div_iff₀ he).mp (by linarith)
  have hhi : v < (m + 1) * 2 ^ e := (div_lt_iff₀ he).mp (by linarith)
  have hexp := isExponent_target hm hlo hhi
  have hle := hm.le_target
  obtain ⟨n, hn⟩ : ∃ n : ℕ, target m e = e + n := ⟨(target m e - e).toNat, by omega⟩
  have hshift : shiftToTargetExponent Format.binary64 m e a =
      (ExtendedMantissa.ofMantissaAndAccuracy m a >>> n, target m e) := by
    rw [shiftToTargetExponent, targetExponent_eq, shiftToExponent, hn, add_sub_cancel_left, Int.toNat_natCast]
  have hem : StandsFor (ExtendedMantissa.ofMantissaAndAccuracy m a >>> n) (v / 2 ^ target m e) := by
    have := (standsFor_ofMantissaAndAccuracy h).shiftRight n
    rwa [div_div, ← zpow_natCast 2 n, ← zpow_add₀ (by norm_num), ← hn] at this
  generalize ExtendedMantissa.ofMantissaAndAccuracy m a >>> n = em at hshift hem
  generalize target m e = t at hshift hem hexp
  obtain ⟨hr, hf⟩ := mantissa_bounds hexp hem.error
  obtain ⟨k, l, hcarry, hk, hl, hfull, hbits⟩ := shift_carry hr hexp.least hf
  have hround : roundWithAccuracy Format.binary64 (sign negative) m e a =
      (Binary.finite negative k l).unpacked := by
    rw [roundWithAccuracy, hshift]
    dsimp only
    rw [hcarry]
    exact unpacked_of_parts negative k l
  rw [hround]
  have hx := rounds_ofBits hexp hem.error hem.even
  have hi : infinityBits = 2047 * 2 ^ 52 := rfl
  apply hx.withSign
  rw [← hbits]
  by_cases hmost : l ≤ 971
  · have hmant : IsMantissa k l := ⟨hk, hl, hmost, hfull⟩
    rw [min_eq_left (by omega), ofFloat_ofBits_mantissa hmant, ofFloat_pack (by exact hmant)]
    rintro b rfl
    rfl
  · rw [min_eq_right (by omega), ofFloat_ofBits le_rfl,
      ofFloat_pack_large negative (by omega) (by omega)]
    rintro b rfl
    rfl

end Binary

end Immittance
