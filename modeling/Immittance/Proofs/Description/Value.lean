import Mathlib
import Immittance.Proofs.Expression.Layout
import Immittance.Proofs.Expression.Strict

/-!
# The texts of values

The shortest text of every double, one that is not finite included, is read as the double again. So
no two doubles share a text; and none has a parenthesis or a comma in it.
-/

set_option autoImplicit false

namespace Immittance

open Text Expression

theorem ofFloat_nan : Binary.ofFloat (0 / 0) = .nan := by decide +kernel

theorem ofFloat_infinite : Binary.ofFloat (1 / 0) = .infinite false ∧
    Binary.ofFloat (-(1 / 0)) = .infinite true := by decide +kernel

theorem shortestText_nan {x : Float} (hx : Binary.ofFloat x = .nan) :
    shortestText x = ['n', 'a', 'n'] := by
  rw [shortestText, Style.text, hx]

theorem shortestText_infinite {x : Float} {negative : Bool}
    (hx : Binary.ofFloat x = .infinite negative) :
    shortestText x = (if negative then ['-'] else []) ++ ['i', 'n', 'f'] := by
  rw [shortestText, Style.text, hx]

theorem isLiteral_shortestText {x : Float} (hx : x.isFinite = true) :
    Decimal.IsLiteral (shortestText x) := by
  obtain ⟨d, hread, -⟩ := read?_shortestText hx
  apply Decimal.read?_isSome_iff.mp
  rw [hread]
  rfl

/-- The shortest text of every double is read as the double. -/
theorem readFloat?_shortestText (x : Float) : Decimal.readFloat? (shortestText x) = some x := by
  cases hx : Binary.ofFloat x with
  | nan =>
    obtain rfl : 0 / 0 = x := Binary.ofFloat_injective (ofFloat_nan.trans hx.symm)
    rw [shortestText_nan hx]
    rfl
  | infinite negative =>
    rw [shortestText_infinite hx]
    cases negative with
    | false =>
      obtain rfl : 1 / 0 = x := Binary.ofFloat_injective (ofFloat_infinite.1.trans hx.symm)
      rfl
    | true =>
      obtain rfl : -(1 / 0) = x := Binary.ofFloat_injective (ofFloat_infinite.2.trans hx.symm)
      rfl
  | finite negative m e =>
    have hfinite : x.isFinite = true := Binary.isFinite_iff.mpr ⟨negative, m, e, hx⟩
    have hlit := isLiteral_shortestText hfinite
    have htrim : trim (shortestText x) = shortestText x :=
      trim_eq_self fun c hc => not_blank_of_isLiteralChar (isLiteralChar_of_mem hlit c hc)
    obtain ⟨d, hread, hd⟩ := read?_shortestText hfinite
    rw [readFloat?_of_literal hlit htrim, hread, Option.map_some, hd]

theorem shortestText_injective : Function.Injective shortestText := by
  intro x y h
  apply Option.some.inj
  rw [← readFloat?_shortestText x, h, readFloat?_shortestText y]

/-- A text of a double has no parenthesis and no comma to be taken for those of a group. -/
theorem plain_shortestText (x : Float) : Plain (shortestText x) := by
  cases hx : Binary.ofFloat x with
  | nan =>
    rw [shortestText_nan hx]
    exact ⟨by decide, by decide, by decide⟩
  | infinite negative =>
    rw [shortestText_infinite hx]
    cases negative
    · exact ⟨by decide, by decide, by decide⟩
    · exact ⟨by decide, by decide, by decide⟩
  | finite negative m e =>
    have hfinite : x.isFinite = true := Binary.isFinite_iff.mpr ⟨negative, m, e, hx⟩
    exact plain_of_isLiteral (isLiteral_shortestText hfinite)

end Immittance
