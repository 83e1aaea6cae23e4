import Mathlib
import Immittance.Proofs.Decimal.Rounding

/-!
# What literals denote

A literal writes a sign and a size, piece by piece, and denotes the correct rounding of the size under
the sign. Reading a literal finds this double and no other, which is finite or infinite.
-/

set_option autoImplicit false

namespace Immittance

theorem Binary.isInf_iff {x : Float} :
    x.isInf = true ↔ ∃ negative, Binary.ofFloat x = .infinite negative := by
  have hx : x.isInf = (Binary.ofFloat x).unpacked.isInf := by
    rw [← Binary.unpack_toModel]
    rfl
  rw [hx]
  cases Binary.ofFloat x with
  | nan => simp [Binary.unpacked, Float.Model.UnpackedFloat.isInf]
  | infinite negative => simp [Binary.unpacked, Float.Model.UnpackedFloat.isInf]
  | finite negative m e =>
    by_cases h : 0 < m <;> simp [Binary.unpacked, h, Float.Model.UnpackedFloat.isInf]

theorem Binary.Rounds.isInf_iff {negative : Bool} {v : ℚ} {x : Float} (h : Rounds negative v x) :
    x.isInf = true ↔ x.isFinite = false := by
  rw [Binary.isInf_iff, ← Bool.not_eq_true, Binary.isFinite_iff]
  cases h with
  | infinite parts _ => simp [parts]
  | finite parts _ _ _ => simp [parts]

namespace Decimal

open Text

inductive Scales : List Char → ℤ → Prop
  | none : Scales [] 0
  | mark {c : Char} {sign ds : List Char} (letter : c = 'e' ∨ c = 'E') (signed : IsSign sign)
      (some : ds ≠ []) (digits : AllDigits ds) :
      Scales (c :: (sign ++ ds)) (if sign == ['-'] then -(digitsValue ds : ℤ) else digitsValue ds)

inductive Writes : List Char → Bool → ℚ → Prop
  | whole {sign ws x : List Char} {k : ℤ} (signed : IsSign sign) (some : ws ≠ [])
      (digits : AllDigits ws) (scale : Scales x k) :
      Writes (sign ++ (ws ++ x)) (sign == ['-']) (digitsValue ws * 10 ^ k)
  | point {sign ws fs x : List Char} {k : ℤ} (signed : IsSign sign) (some : ws ≠ [] ∨ fs ≠ [])
      (whole : AllDigits ws) (fraction : AllDigits fs) (scale : Scales x k) :
      Writes (sign ++ (ws ++ '.' :: (fs ++ x))) (sign == ['-'])
        ((digitsValue ws + digitsValue fs / 10 ^ fs.length) * 10 ^ k)

def Means (s : List Char) (x : Float) : Prop :=
  ∃ negative v, Writes s negative v ∧ Binary.Rounds negative v x

theorem scales_iff {x : List Char} {k : ℤ} : Scales x k ↔ readExponent? x = some k := by
  constructor
  · intro h
    cases h with
    | none => rfl
    | mark letter signed some digits => exact readExponent?_mark letter signed some digits
  · intro h
    rcases isExponent_iff.mpr (by rw [h]; rfl) with rfl | ⟨c, sign, ds, hc, hsign, hne, hd, rfl⟩
    · obtain rfl : 0 = k := Option.some.inj h
      exact .none
    · rw [readExponent?_mark hc hsign hne hd] at h
      obtain rfl := Option.some.inj h
      exact .mark hc hsign hne hd

theorem Scales.isExponent {x : List Char} {k : ℤ} (h : Scales x k) : IsExponent x := by
  rw [isExponent_iff, scales_iff.mp h]
  rfl

theorem size_point (ws fs : List Char) (k : ℤ) :
    (digitsValue (ws ++ fs) : ℚ) * 10 ^ (k - fs.length) =
      (digitsValue ws + digitsValue fs / 10 ^ fs.length) * 10 ^ k := by
  rw [digitsValue_append, zpow_sub₀ (by norm_num), zpow_natCast]
  push_cast
  field_simp

/-- A literal writes what it is read as. -/
theorem writes_iff {s : List Char} {negative : Bool} {v : ℚ} :
    Writes s negative v ↔ ∃ d, read? s = some d ∧ d.negative = negative ∧ d.size = v := by
  constructor
  · intro h
    cases h with
    | @whole sign ws _ k signed some digits scale =>
      refine ⟨⟨sign == ['-'], digitsValue ws, k⟩, ?_, rfl, rfl⟩
      rw [read?_whole signed some digits scale.isExponent, scales_iff.mp scale, Option.map_some]
    | @point sign ws fs _ k signed some whole fraction scale =>
      refine ⟨⟨sign == ['-'], digitsValue (ws ++ fs), k - fs.length⟩, ?_, rfl, size_point ws fs k⟩
      rw [read?_point signed some whole fraction scale.isExponent, scales_iff.mp scale,
        Option.map_some]
  · rintro ⟨d, hread, rfl, rfl⟩
    obtain ⟨sign, m, x, hsign, hm, hx, rfl⟩ := read?_isSome_iff.mp (by rw [hread]; rfl)
    obtain ⟨k, hk⟩ := Option.isSome_iff_exists.mp (isExponent_iff.mp hx)
    cases hm with
    | whole hne hws =>
      rw [read?_whole hsign hne hws hx, hk] at hread
      obtain rfl := Option.some.inj hread
      exact .whole hsign hne hws (scales_iff.mpr hk)
    | @point ws fs hne hws hfs =>
      rw [List.append_assoc, List.cons_append, read?_point hsign hne hws hfs hx, hk] at hread
      obtain rfl := Option.some.inj hread
      rw [List.append_assoc, List.cons_append, size, size_point]
      exact .point hsign hne hws hfs (scales_iff.mpr hk)

theorem means_iff {s : List Char} {x : Float} :
    Means s x ↔ ∃ d, read? s = some d ∧ d.toFloat = x := by
  constructor
  · rintro ⟨negative, v, hw, hx⟩
    obtain ⟨d, hd, rfl, rfl⟩ := writes_iff.mp hw
    exact ⟨d, hd, (rounds_toFloat d).unique hx⟩
  · rintro ⟨d, hd, rfl⟩
    exact ⟨d.negative, d.size, writes_iff.mpr ⟨d, hd, rfl, rfl⟩, rounds_toFloat d⟩

theorem Means.unique {s : List Char} {x y : Float} (hx : Means s x) (hy : Means s y) : x = y := by
  obtain ⟨d, hd, rfl⟩ := means_iff.mp hx
  obtain ⟨d', hd', rfl⟩ := means_iff.mp hy
  rw [Option.some.inj (hd.symm.trans hd')]

theorem isLiteral_iff_means {s : List Char} : IsLiteral s ↔ ∃ x, Means s x := by
  rw [← read?_isSome_iff, Option.isSome_iff_exists]
  constructor
  · rintro ⟨d, hd⟩
    exact ⟨d.toFloat, means_iff.mpr ⟨d, hd, rfl⟩⟩
  · rintro ⟨x, hx⟩
    obtain ⟨d, hd, -⟩ := means_iff.mp hx
    exact ⟨d, hd⟩

theorem Means.isInf_iff {s : List Char} {x : Float} (h : Means s x) :
    x.isInf = true ↔ x.isFinite = false := by
  obtain ⟨negative, v, -, hx⟩ := h
  exact hx.isInf_iff

end Decimal

end Immittance
