import Mathlib
import Immittance.Decimal.Basic

/-!
# Doubles and their bits

The parts of a double are those of its bits, and a double is made of its parts again. A finite one is
told by its sign, its mantissa and its exponent, which the opposite and the absolute value keep up to
the sign; two that are not negative are equal where their bits are.
-/

set_option autoImplicit false

namespace Immittance

open Float.Model Float.Model.UnpackedFloat

namespace Binary

def ofNat (bits : ℕ) : Binary :=
  let negative := bits / 2 ^ 63 % 2 == 1
  let power : ℕ := bits / 2 ^ 52 % 2 ^ 11
  let rest := bits % 2 ^ 52
  if power = 2047 then
    if rest = 0 then .infinite negative else .nan
  else if power = 0 then .finite negative rest (-1074)
  else .finite negative (2 ^ 52 + rest) ((power : ℤ) - 1075)

theorem ofFloat_eq (x : Float) : ofFloat x = ofNat x.toBits.toNat := rfl

def sign (negative : Bool) : Sign := if negative then .negative else .positive

def unpacked : Binary → UnpackedFloat
  | .nan => .notANumber
  | .infinite negative => .infinity (sign negative)
  | .finite negative m e => if h : 0 < m then .finite (sign negative) m e h else .zero (sign negative)

theorem toNat_unpackMantissa (w : BitVec 64) :
    (@unpackMantissa Format.binary64 w).toNat = w.toNat % 2 ^ 52 := by
  simp [unpackMantissa, BitVec.extractLsb_toNat]

theorem toNat_unpackExponent (w : BitVec 64) :
    (@unpackExponent Format.binary64 w).toNat = w.toNat / 2 ^ 52 % 2 ^ 11 := by
  simp [unpackExponent, BitVec.extractLsb_toNat, Nat.shiftRight_eq_div_pow]

theorem toNat_unpackSign (w : BitVec 64) :
    (@unpackSign Format.binary64 w).toNat = w.toNat / 2 ^ 63 % 2 := by
  simp [unpackSign, BitVec.extractLsb_toNat, Nat.shiftRight_eq_div_pow]

theorem sign_ofBitVec (b : BitVec 1) : Sign.ofBitVec b = sign (b.toNat == 1) := by
  have h := b.isLt
  by_cases h0 : b = 0#1
  · subst h0
    rfl
  · have h1 : b.toNat ≠ 0 := fun k => h0 (BitVec.eq_of_toNat_eq k)
    have h2 : b.toNat = 1 := by omega
    simp [Sign.ofBitVec, h0, h2, sign]

theorem toNat_implicit (w : BitVec 52) : (1#1 ++ w).toNat = 2 ^ 52 + w.toNat := by
  rw [BitVec.toNat_append, ← Nat.shiftLeft_add_eq_or_of_lt w.isLt]
  rfl

theorem unpack_eq (w : BitVec 64) : unpack Format.binary64 w = (ofNat w.toNat).unpacked := by
  have hm := toNat_unpackMantissa w
  have he := toNat_unpackExponent w
  have hs := toNat_unpackSign w
  have hexp : ∀ v : BitVec 11, @unpackExponent Format.binary64 w = v ↔
      w.toNat / 2 ^ 52 % 2 ^ 11 = v.toNat := fun v => by rw [← he, BitVec.toNat_inj]
  have hman : @unpackMantissa Format.binary64 w = 0#52 ↔ w.toNat % 2 ^ 52 = 0 := by
    rw [← hm, ← BitVec.toNat_inj, BitVec.toNat_zero]
  rw [UnpackedFloat.unpack, ofNat]
  dsimp only
  by_cases h7 : w.toNat / 2 ^ 52 % 2 ^ 11 = 2047
  · rw [if_pos ((hexp (-1#11)).mpr h7), if_pos h7]
    by_cases hr : w.toNat % 2 ^ 52 = 0
    · rw [if_pos (hman.mpr hr), if_pos hr, sign_ofBitVec, hs]
      rfl
    · rw [if_neg (fun k => hr (hman.mp k)), if_neg hr]
      rfl
  · rw [if_neg (fun k => h7 ((hexp (-1#11)).mp k)), if_neg h7]
    by_cases h0 : w.toNat / 2 ^ 52 % 2 ^ 11 = 0
    · rw [if_pos ((hexp 0#11).mpr h0), if_pos h0, sign_ofBitVec, hs]
      by_cases hr : w.toNat % 2 ^ 52 = 0
      · rw [dif_pos (hman.mpr hr), unpacked, dif_neg (by omega)]
      · rw [dif_neg (fun k => hr (hman.mp k)), unpacked, dif_pos (by omega)]
        congr 1
        rw [he, h0]
        rfl
    · rw [if_neg (fun k => h0 ((hexp 0#11).mp k)), if_neg h0, sign_ofBitVec, hs, unpacked,
        dif_pos (by omega)]
      congr 1
      · rw [toNat_implicit, hm]
      · rw [he]
        rfl

def signBits (negative : Bool) : ℕ := if negative then 2 ^ 63 else 0

def bits : Binary → ℕ
  | .nan => 4095 * 2 ^ 51
  | .infinite negative => signBits negative + infinityBits
  | .finite negative m e => signBits negative + ((e + 1074).toNat * 2 ^ 52 + m)

structure IsMantissa (m : ℕ) (e : ℤ) : Prop where
  lt : m < 2 ^ 53
  least : -1074 ≤ e
  most : e ≤ 971
  full : e = -1074 ∨ 2 ^ 52 ≤ m

def Canonical : Binary → Prop
  | .finite _ m e => IsMantissa m e
  | _ => True

theorem toNat_packComponents (negative : Bool) (e : BitVec 11) (m : BitVec 52) :
    (packComponents Format.binary64 (sign negative) e m).toNat =
      signBits negative + (e.toNat * 2 ^ 52 + m.toNat) := by
  have hs : (sign negative).toBitVec.toNat * 2 ^ 63 = signBits negative := by
    cases negative <;> rfl
  rw [packComponents, BitVec.toNat_append, BitVec.toNat_append,
    ← Nat.shiftLeft_add_eq_or_of_lt m.isLt, ← Nat.shiftLeft_add_eq_or_of_lt e.isLt, ← hs]
  simp only [Nat.shiftLeft_eq]
  ring

theorem toNat_pack {b : Binary} (h : b.Canonical) :
    (UnpackedFloat.pack Format.binary64 b.unpacked).toNat = b.bits := by
  cases b with
  | nan => rfl
  | infinite negative => cases negative <;> rfl
  | finite negative m e =>
    obtain ⟨hm, hl, hh, hf⟩ := h
    by_cases h0 : 0 < m
    · rw [unpacked, dif_pos h0, UnpackedFloat.pack, bits]
      dsimp only
      have hb : (e + (Format.binary64.exponentBias : ℕ) +
          (Format.binary64.mantissaBitsWithoutImplicit : ℕ)).toNat = (e + 1075).toNat := by
        congr 1
        show e + 1023 + 52 = e + 1075
        ring
      rw [hb, if_neg (by show ¬ 2048 ≤ _; omega)]
      have hlog : m.log2 + 1 = Format.binary64.mantissaBits ↔ 2 ^ 52 ≤ m := by
        show m.log2 + 1 = 53 ↔ _
        have := Nat.log2_lt (k := 53) (by omega : m ≠ 0)
        have := Nat.le_log2 (k := 52) (by omega : m ≠ 0)
        omega
      by_cases hn : 2 ^ 52 ≤ m
      · rw [if_pos (hlog.mpr hn), toNat_packComponents, BitVec.toNat_ofNat, BitVec.toNat_ofNat]
        show signBits negative + ((e + 1075).toNat % 2048 * 2 ^ 52 + m % 2 ^ 52) = _
        omega
      · rw [if_neg (fun k => hn (hlog.mp k)), toNat_packComponents, BitVec.toNat_ofNat]
        show signBits negative + (0 * 2 ^ 52 + m % 2 ^ 52) = _
        omega
    · obtain rfl : m = 0 := by omega
      obtain rfl : e = -1074 := by omega
      rw [unpacked, dif_neg h0]
      cases negative <;> rfl

theorem canonical_ofNat (n : ℕ) : (ofNat n).Canonical := by
  rw [ofNat]
  split
  · split <;> trivial
  · split
    · exact ⟨by omega, le_rfl, by omega, Or.inl rfl⟩
    · exact ⟨by omega, by omega, by omega, Or.inr (by omega)⟩

theorem bits_ofNat {n : ℕ} (hn : n < 2 ^ 64) (h : ofNat n ≠ nan) : (ofNat n).bits = n := by
  have hs : signBits (n / 2 ^ 63 % 2 == 1) = n / 2 ^ 63 % 2 * 2 ^ 63 := by
    rcases Nat.mod_two_eq_zero_or_one (n / 2 ^ 63) with k | k <;> rw [k] <;> rfl
  have hi : infinityBits = 2047 * 2 ^ 52 := rfl
  rw [ofNat] at h ⊢
  split_ifs at h ⊢
  · rw [bits, hs]
    omega
  · exact absurd rfl h
  · have h0 : ((-1074 : ℤ) + 1074).toNat = 0 := rfl
    simp only [bits, hs, h0]
    omega
  · rw [bits, hs]
    omega

/-- The fields of a sign with the bits below it. -/
theorem fields (negative : Bool) {g : ℕ} (hg : g < 2 ^ 63) :
    ((signBits negative + g) / 2 ^ 63 % 2 == 1) = negative ∧
    (signBits negative + g) / 2 ^ 52 % 2 ^ 11 = g / 2 ^ 52 ∧
    (signBits negative + g) % 2 ^ 52 = g % 2 ^ 52 := by
  have h0 : signBits false = 0 := rfl
  have h1 : signBits true = 2 ^ 63 := rfl
  cases negative with
  | false =>
    rw [h0, beq_eq_false_iff_ne]
    omega
  | true =>
    rw [h1, beq_iff_eq]
    omega

theorem ofNat_bits {b : Binary} (h : b.Canonical) : ofNat b.bits = b := by
  cases b with
  | nan => rfl
  | infinite negative => cases negative <;> rfl
  | finite negative m e =>
    obtain ⟨hm, hl, hh, hf⟩ := h
    obtain ⟨k, hk⟩ : ∃ k : ℕ, e = (k : ℤ) - 1074 := ⟨(e + 1074).toNat, by omega⟩
    subst hk
    have hk : ((k : ℤ) - 1074 + 1074).toNat = k := by omega
    obtain ⟨h1, h2, h3⟩ := fields negative (show k * 2 ^ 52 + m < 2 ^ 63 by omega)
    simp only [bits, ofNat, hk, h1, h2, h3]
    by_cases hn : 2 ^ 52 ≤ m
    · have hp : (k * 2 ^ 52 + m) / 2 ^ 52 = k + 1 := by omega
      have hr : 2 ^ 52 + (k * 2 ^ 52 + m) % 2 ^ 52 = m := by omega
      rw [hp, hr, if_neg (by omega), if_neg (by omega)]
      congr 1
      push_cast
      ring
    · obtain rfl : k = 0 := by omega
      have hp : m / 2 ^ 52 = 0 := by omega
      have hr : m % 2 ^ 52 = m := by omega
      rw [Nat.zero_mul, Nat.zero_add, hp, hr]
      rfl

/-! ## Doubles from bits -/

theorem eq_of_toBits {x y : Float} (h : x.toBits.toNat = y.toBits.toNat) : x = y := by
  obtain ⟨⟨u, hu⟩⟩ := x
  obtain ⟨⟨v, hv⟩⟩ := y
  obtain rfl : u = v := UInt64.toNat_inj.mp h
  rfl

theorem unpack_toModel (x : Float) : x.toModel.unpack = (ofFloat x).unpacked :=
  unpack_eq x.toBits.toBitVec

theorem ofFloat_injective : Function.Injective ofFloat := by
  intro x y h
  apply Float.toBits_inj.mp
  apply UInt64.toBitVec_inj.mp
  apply (unpack_inj_of_valid x.toModel.valid y.toModel.valid).mp
  show x.toModel.unpack = y.toModel.unpack
  rw [unpack_toModel, unpack_toModel, h]

theorem toBits_pack {b : Binary} (h : b.Canonical) :
    (Float.ofModel (.pack b.unpacked)).toBits.toNat = b.bits := toNat_pack h

theorem canonical_ofFloat (x : Float) : (ofFloat x).Canonical := canonical_ofNat _

/-- The size of a double whose bits are no sign. -/
theorem toBits_ofBits {n : ℕ} (hn : n ≤ infinityBits) :
    (Float.ofBits n.toUInt64).toBits.toNat = n := by
  have hi : infinityBits = 2047 * 2 ^ 52 := rfl
  have hu : n.toUInt64.toBitVec.toNat = n := by
    show n % 2 ^ 64 = n
    omega
  have h : Float.ofBits n.toUInt64 = .ofModel (.pack (ofNat n).unpacked) := by
    rw [Float.ofBits, Float.Model.ofBits, unpack_eq, hu]
  rw [h, toBits_pack (canonical_ofNat n), bits_ofNat (by omega)]
  rw [ofNat]
  split_ifs <;> simp
  omega

theorem ofFloat_ofBits {n : ℕ} (hn : n ≤ infinityBits) :
    ofFloat (Float.ofBits n.toUInt64) = ofNat n := by
  rw [ofFloat_eq, toBits_ofBits hn]

theorem toBits_of_finite {x : Float} {negative : Bool} {m : ℕ} {e : ℤ}
    (h : ofFloat x = .finite negative m e) :
    x.toBits.toNat = signBits negative + ((e + 1074).toNat * 2 ^ 52 + m) := by
  have hx := bits_ofNat (n := x.toBits.toNat) x.toBits.toNat_lt (by rw [← ofFloat_eq, h]; simp)
  rw [← hx, ← ofFloat_eq, h, bits]

theorem isMantissa_of_finite {x : Float} {negative : Bool} {m : ℕ} {e : ℤ}
    (h : ofFloat x = .finite negative m e) : IsMantissa m e := by
  have hx := canonical_ofFloat x
  rw [h] at hx
  exact hx

theorem exponent_of_zero {x : Float} {negative : Bool} {e : ℤ} (h : ofFloat x = .finite negative 0 e) :
    e = -1074 :=
  (isMantissa_of_finite h).full.resolve_right (by omega)

theorem ofBits_of_finite {x : Float} {m : ℕ} {e : ℤ} (h : ofFloat x = .finite false m e) :
    Float.ofBits ((e + 1074).toNat * 2 ^ 52 + m).toUInt64 = x := by
  obtain ⟨hm, hl, hh, -⟩ := isMantissa_of_finite h
  have hi : infinityBits = 2047 * 2 ^ 52 := rfl
  apply eq_of_toBits
  rw [toBits_ofBits (by omega), toBits_of_finite h]
  exact (Nat.zero_add _).symm

theorem isFinite_iff {x : Float} :
    x.isFinite = true ↔ ∃ negative m e, ofFloat x = .finite negative m e := by
  have hx : x.isFinite = (ofFloat x).unpacked.isFinite := by
    rw [← unpack_toModel]
    rfl
  rw [hx]
  cases ofFloat x with
  | nan => simp [unpacked, UnpackedFloat.isFinite]
  | infinite negative => simp [unpacked, UnpackedFloat.isFinite]
  | finite negative m e =>
    by_cases h : 0 < m <;> simp [unpacked, h, UnpackedFloat.isFinite]

theorem neg_sign (negative : Bool) : -sign negative = sign (!negative) := by
  cases negative <;> rfl

def opposite : Binary → Binary
  | .nan => .nan
  | .infinite negative => .infinite (!negative)
  | .finite negative m e => .finite (!negative) m e

theorem unpacked_neg (b : Binary) : b.unpacked.neg = b.opposite.unpacked := by
  cases b with
  | nan => rfl
  | infinite negative => simp [opposite, unpacked, UnpackedFloat.neg, neg_sign]
  | finite negative m e =>
    by_cases h0 : 0 < m <;> simp [opposite, unpacked, h0, UnpackedFloat.neg, neg_sign]

theorem ofFloat_opposite (x : Float) : ofFloat (-x) = (ofFloat x).opposite := by
  have hc : (ofFloat x).opposite.Canonical := by
    have h := canonical_ofFloat x
    cases hx : ofFloat x <;> rw [hx] at h <;> exact h
  have hx : -x = .ofModel (.pack (ofFloat x).opposite.unpacked) := by
    rw [← unpacked_neg, ← unpack_toModel]
    rfl
  rw [hx, ofFloat_eq, toBits_pack hc, ofNat_bits hc]

theorem ofFloat_neg {x : Float} {negative : Bool} {m : ℕ} {e : ℤ}
    (h : ofFloat x = .finite negative m e) : ofFloat (-x) = .finite (!negative) m e := by
  rw [ofFloat_opposite, h, opposite]

theorem ofFloat_abs {x : Float} {negative : Bool} {m : ℕ} {e : ℤ}
    (h : ofFloat x = .finite negative m e) : ofFloat x.abs = .finite false m e := by
  have hu : (Binary.finite negative m e).unpacked.abs = (Binary.finite false m e).unpacked := by
    by_cases h0 : 0 < m <;> simp [unpacked, h0, UnpackedFloat.abs, sign]
  have hc : (Binary.finite false m e).Canonical := isMantissa_of_finite h
  have hx : x.abs = .ofModel (.pack (Binary.finite false m e).unpacked) := by
    rw [← hu, ← h, ← unpack_toModel]
    rfl
  rw [hx, ofFloat_eq, toBits_pack hc, ofNat_bits hc]

theorem beq_eq (x y : Float) :
    (x == y) = ((ofFloat x).unpacked.compare (ofFloat y).unpacked == some .eq) := by
  rw [← unpack_toModel, ← unpack_toModel]
  rfl

theorem compare_positive {m k : ℕ} {e l : ℤ} (hm : IsMantissa m e) (hk : IsMantissa k l)
    (h : (Binary.finite false m e).unpacked.compare (Binary.finite false k l).unpacked =
      some .eq) : m = k ∧ e = l := by
  obtain ⟨-, -, -, hf⟩ := hm
  obtain ⟨-, -, -, hg⟩ := hk
  by_cases hm0 : 0 < m
  · by_cases hk0 : 0 < k
    · simp only [unpacked, dif_pos hm0, dif_pos hk0, sign, UnpackedFloat.compare, Option.some.injEq,
        Ordering.then_eq_eq, Int.compare_eq_eq, Nat.compare_eq_eq, Bool.false_eq_true, if_false] at h
      exact ⟨h.2, h.1⟩
    · simp [unpacked, hm0, hk0, sign, UnpackedFloat.compare] at h
  · by_cases hk0 : 0 < k
    · simp [unpacked, hm0, hk0, sign, UnpackedFloat.compare] at h
    · omega

theorem negative_of_ofNat {n m : ℕ} {negative : Bool} {e : ℤ} (hn : n ≤ infinityBits)
    (h : ofNat n = .finite negative m e) : negative = false := by
  have hi : infinityBits = 2047 * 2 ^ 52 := rfl
  obtain ⟨hs, -, -⟩ := fields false (show n < 2 ^ 63 by omega)
  have h0 : signBits false + n = n := Nat.zero_add n
  rw [h0] at hs
  rw [ofNat, hs] at h
  split_ifs at h
  all_goals (injection h with k _ _; exact k.symm)

/-- Equality with a finite double that is not negative is sameness, for every double whose bits are
no sign. -/
theorem beq_iff {x : Float} {m n : ℕ} {e : ℤ} (hx : ofFloat x = .finite false m e)
    (hn : n ≤ infinityBits) :
    (Float.ofBits n.toUInt64 == x) = true ↔ Float.ofBits n.toUInt64 = x := by
  have hm := isMantissa_of_finite hx
  have hy := ofFloat_ofBits hn
  constructor
  · intro h
    rw [beq_eq, hx, beq_iff_eq] at h
    cases hb : ofNat n with
    | nan =>
      rw [hy, hb] at h
      simp [unpacked, UnpackedFloat.compare] at h
    | infinite negative =>
      rw [hy, hb] at h
      by_cases h0 : 0 < m <;> cases negative <;>
        simp [unpacked, h0, sign, UnpackedFloat.compare] at h
    | finite negative k l =>
      obtain rfl := negative_of_ofNat hn hb
      rw [hb] at hy
      rw [hy] at h
      obtain ⟨rfl, rfl⟩ := compare_positive (isMantissa_of_finite hy) hm h
      exact ofFloat_injective (hy.trans hx.symm)
  · intro h
    rw [h, beq_eq, hx, beq_iff_eq]
    by_cases h0 : 0 < m
    · simp [unpacked, h0, sign, UnpackedFloat.compare]
    · simp [unpacked, h0, UnpackedFloat.compare]

end Binary

end Immittance
