import Mathlib

/-!
# Signs of doubles

Rounding a result may lose its sign, to a zero, but never turns it. So a sum has the sign of one of
its summands or none, and a product or a quotient the one that the signs of its operands make or none.
-/

set_option autoImplicit false

namespace Immittance

open Float.Model Float.Model.UnpackedFloat

namespace Binary

def side : Sign → SignType
  | .negative => -1
  | .positive => 1

def unpackedSign : UnpackedFloat → SignType
  | .infinity s => side s
  | .finite s _ _ _ => side s
  | .zero _ => 0
  | .notANumber => 0

theorem side_neg (s : Sign) : side (-s) = -side s := by
  cases s <;> rfl

theorem side_mul (s t : Sign) : side (s * t) = side s * side t := by
  cases s <;> cases t <;> rfl

theorem side_div (s t : Sign) : side (s / t) = side s * side t := by
  cases s <;> cases t <;> rfl

def Keeps (a b : SignType) : Prop := a = 0 ∨ a = b

theorem keeps_self (a : SignType) : Keeps a a := Or.inr rfl

theorem keeps_zero (a : SignType) : Keeps 0 a := Or.inl rfl

theorem Keeps.trans {a b c : SignType} (hab : Keeps a b) (hbc : Keeps b c) : Keeps a c := by
  rcases hab with rfl | rfl
  · exact keeps_zero c
  · exact hbc

/-! ## Rounding and packing -/

theorem roundWithAccuracy_sign (spec : Format) (s : Sign) (m : ℕ) (e : ℤ) (a : Accuracy) :
    Keeps (unpackedSign (roundWithAccuracy spec s m e a)) (side s) := by
  rw [roundWithAccuracy]
  dsimp only
  split_ifs
  · exact keeps_zero _
  · exact keeps_self _

theorem unpack_packComponents_sign (s : Sign) (e : BitVec 11) (m : BitVec 52) :
    Keeps (unpackedSign (UnpackedFloat.unpack Format.binary64 (packComponents Format.binary64 s e m))) (side s) := by
  have hs : Sign.ofBitVec (unpackSign (packComponents Format.binary64 s e m)) = s := by
    rw [unpackSign_packComponents]
    cases s <;> rfl
  rw [UnpackedFloat.unpack, hs]
  dsimp only
  split_ifs
  · exact keeps_self _
  · exact keeps_zero _
  · exact keeps_zero _
  · exact keeps_self _
  · exact keeps_self _

/-- Packed and taken apart again a number has the sign it had, or none. -/
theorem unpack_pack_sign (u : UnpackedFloat) :
    Keeps (unpackedSign (UnpackedFloat.unpack Format.binary64 (UnpackedFloat.pack Format.binary64 u)))
      (unpackedSign u) := by
  cases u with
  | infinity s => exact unpack_packComponents_sign s _ _
  | notANumber =>
    rw [UnpackedFloat.pack, unpack_packedNaN]
    exact keeps_self _
  | zero s =>
    rw [UnpackedFloat.pack, unpack_packedZero]
    exact keeps_self _
  | finite s m e hm =>
    rw [UnpackedFloat.pack]
    dsimp only
    split_ifs
    · exact unpack_packComponents_sign s _ _
    · exact unpack_packComponents_sign s _ _
    · exact unpack_packComponents_sign s _ _

/-! ## Operations on numbers taken apart -/

theorem normalize_sign (spec : Format) (m e : ℤ) (s : Sign) :
    Keeps (unpackedSign (UnpackedFloat.normalize spec m e s)) (SignType.sign m) := by
  rw [UnpackedFloat.normalize]
  rcases lt_trichotomy m 0 with h | rfl | h
  · rw [compare_lt_iff_lt.mpr h, sign_neg h]
    exact roundWithAccuracy_sign ..
  · exact keeps_zero _
  · rw [compare_gt_iff_gt.mpr h, sign_pos h]
    exact roundWithAccuracy_sign ..

theorem sign_apply (s : Sign) (m : ℕ) : Keeps (SignType.sign (s.apply m)) (side s) := by
  rcases Nat.eq_zero_or_pos m with rfl | h
  · cases s <;> exact keeps_zero _
  · cases s with
    | negative => exact Or.inr (sign_neg (by simp [Sign.apply, h]))
    | positive => exact Or.inr (sign_pos (by simp [Sign.apply, h]))

theorem sign_add_int (m n : ℤ) : Keeps (SignType.sign (m + n)) (SignType.sign m) ∨
    Keeps (SignType.sign (m + n)) (SignType.sign n) := by
  rcases lt_trichotomy (m + n) 0 with h | h | h
  · rcases lt_or_ge m 0 with hm | hm
    · exact Or.inl (Or.inr (by rw [sign_neg h, sign_neg hm]))
    · exact Or.inr (Or.inr (by rw [sign_neg h, sign_neg (by omega)]))
  · exact Or.inl (Or.inl (by rw [h, sign_zero]))
  · rcases lt_or_ge 0 m with hm | hm
    · exact Or.inl (Or.inr (by rw [sign_pos h, sign_pos hm]))
    · exact Or.inr (Or.inr (by rw [sign_pos h, sign_pos (by omega)]))

theorem add_sign (spec : Format) (u v : UnpackedFloat) :
    Keeps (unpackedSign (UnpackedFloat.add spec u v)) (unpackedSign u) ∨
      Keeps (unpackedSign (UnpackedFloat.add spec u v)) (unpackedSign v) := by
  cases u with
  | notANumber => exact Or.inl (keeps_zero _)
  | infinity s =>
    cases v with
    | notANumber => exact Or.inl (keeps_zero _)
    | infinity t =>
      rw [UnpackedFloat.add]
      split_ifs
      · exact Or.inl (keeps_self _)
      · exact Or.inl (keeps_zero _)
    | zero t => exact Or.inl (keeps_self _)
    | finite t n f hn => exact Or.inl (keeps_self _)
  | zero s =>
    cases v with
    | notANumber => exact Or.inl (keeps_zero _)
    | infinity t => exact Or.inr (keeps_self _)
    | zero t =>
      rw [UnpackedFloat.add]
      split_ifs
      · exact Or.inl (keeps_zero _)
      · exact Or.inl (keeps_zero _)
    | finite t n f hn => exact Or.inr (keeps_self _)
  | finite s m e hm =>
    cases v with
    | notANumber => exact Or.inl (keeps_zero _)
    | infinity t => exact Or.inr (keeps_self _)
    | zero t => exact Or.inl (keeps_self _)
    | finite t n f hn =>
      rw [UnpackedFloat.add]
      dsimp only
      -- the exact sum of the two mantissas has a sign of theirs before it is rounded
      apply (sign_add_int _ _).imp
      · exact fun h => (normalize_sign ..).trans (h.trans (sign_apply s _))
      · exact fun h => (normalize_sign ..).trans (h.trans (sign_apply t _))

theorem mul_sign (spec : Format) (u v : UnpackedFloat) :
    Keeps (unpackedSign (UnpackedFloat.mul spec u v)) (unpackedSign u * unpackedSign v) := by
  cases u with
  | notANumber => exact keeps_zero _
  | infinity s =>
    cases v with
    | notANumber => exact keeps_zero _
    | zero t => exact keeps_zero _
    | infinity t => exact Or.inr (side_mul s t)
    | finite t n f hn => exact Or.inr (side_mul s t)
  | zero s => cases v <;> exact keeps_zero _
  | finite s m e hm =>
    cases v with
    | notANumber => exact keeps_zero _
    | zero t => exact keeps_zero _
    | infinity t => exact Or.inr (side_mul s t)
    | finite t n f hn =>
      have h := roundWithAccuracy_sign spec (s * t) (m * n) (e + f) .exact
      rw [side_mul] at h
      exact h

/-- The sign of a quotient by what is not zero. -/
theorem div_sign (spec : Format) (u : UnpackedFloat) {v : UnpackedFloat} (hv : ∀ s, v ≠ .zero s) :
    Keeps (unpackedSign (UnpackedFloat.div spec u v)) (unpackedSign u * unpackedSign v) := by
  cases v with
  | notANumber => cases u <;> exact keeps_zero _
  | zero t => exact absurd rfl (hv t)
  | infinity t => cases u <;> exact keeps_zero _
  | finite t n f hn =>
    cases u with
    | notANumber => exact keeps_zero _
    | zero s => exact keeps_zero _
    | infinity s => exact Or.inr (side_div s t)
    | finite s m e hm =>
      rw [UnpackedFloat.div]
      have h := fun m e a => roundWithAccuracy_sign spec (s / t) m e a
      rw [side_div] at h
      exact h ..

theorem neg_unpackedSign (u : UnpackedFloat) : unpackedSign u.neg = -unpackedSign u := by
  cases u with
  | notANumber => rfl
  | zero s => rfl
  | infinity s => exact side_neg s
  | finite s m e hm => exact side_neg s

end Binary

/-! ## Operations on doubles -/

open Binary

def floatSign (x : Float) : SignType := unpackedSign x.toModel.unpack

theorem floatSign_add (x y : Float) :
    Keeps (floatSign (x + y)) (floatSign x) ∨ Keeps (floatSign (x + y)) (floatSign y) := by
  apply (add_sign Format.binary64 x.toModel.unpack y.toModel.unpack).imp
  · exact (unpack_pack_sign _).trans
  · exact (unpack_pack_sign _).trans

theorem floatSign_mul (x y : Float) : Keeps (floatSign (x * y)) (floatSign x * floatSign y) :=
  (unpack_pack_sign _).trans (mul_sign Format.binary64 x.toModel.unpack y.toModel.unpack)

theorem floatSign_neg (x : Float) : Keeps (floatSign (-x)) (-floatSign x) := by
  have h := unpack_pack_sign x.toModel.unpack.neg
  rw [neg_unpackedSign] at h
  exact h

theorem unpack_zero : (0 : Float).toModel.unpack = .zero .positive := by
  rfl

theorem unpack_ne_zero {x : Float} (hx : (x == 0) = false) (s : Sign) :
    x.toModel.unpack ≠ .zero s := by
  intro hs
  have h : (x == 0) = x.toModel.unpack.beq (0 : Float).toModel.unpack := rfl
  rw [h, hs, unpack_zero] at hx
  cases s <;> exact absurd hx (by decide)

theorem floatSign_div (x : Float) {y : Float} (hy : (y == 0) = false) :
    Keeps (floatSign (x / y)) (floatSign x * floatSign y) := by
  apply (unpack_pack_sign _).trans
  apply div_sign
  exact unpack_ne_zero hy

theorem float_lt_iff {x y : Float} : x < y ↔ x.toModel.unpack.lt y.toModel.unpack = true :=
  decide_eq_true_iff

theorem floatSign_eq_neg_one_iff {x : Float} : floatSign x = -1 ↔ x < 0 := by
  rw [float_lt_iff, unpack_zero, floatSign]
  cases x.toModel.unpack with
  | notANumber => decide
  | zero s => cases s <;> decide
  | infinity s => cases s <;> decide
  | finite s m e hm => cases s <;> simp [UnpackedFloat.lt, UnpackedFloat.compare, unpackedSign, side]

theorem floatSign_eq_one_iff {x : Float} : floatSign x = 1 ↔ 0 < x := by
  rw [float_lt_iff, unpack_zero, floatSign]
  cases x.toModel.unpack with
  | notANumber => decide
  | zero s => cases s <;> decide
  | infinity s => cases s <;> decide
  | finite s m e hm => cases s <;> simp [UnpackedFloat.lt, UnpackedFloat.compare, unpackedSign, side]

/-- A double without a sign is one of the zeros or no number. -/
theorem floatSign_eq_zero_iff {x : Float} :
    floatSign x = 0 ↔ (x == 0) = true ∨ x.isNaN = true := by
  have hzero : (x == 0) = x.toModel.unpack.beq (0 : Float).toModel.unpack := rfl
  have hnan : x.isNaN = x.toModel.unpack.isNaN := rfl
  rw [hzero, hnan, unpack_zero, floatSign]
  cases x.toModel.unpack with
  | notANumber => decide
  | zero s => cases s <;> decide
  | infinity s => cases s <;> decide
  | finite s m e hm =>
    cases s <;> simp [UnpackedFloat.beq, UnpackedFloat.compare,
      UnpackedFloat.isNaN, unpackedSign, side]

end Immittance
