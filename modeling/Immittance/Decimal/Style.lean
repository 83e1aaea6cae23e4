import Immittance.Decimal.Digits

/-!
# Written numbers

Two ways to write a double share one layout: the shortest digits that read back, and a fixed number
of significant digits. The layout is positional for the middle powers of ten; outside of them it is
one digit, the other digits after a point, and an exponent with a sign and at least two digits.
-/

set_option autoImplicit false

namespace Immittance

/-- Which powers of ten are written positionally, and whether a whole number keeps a zero after the
point. -/
structure Style where
  least : Int
  most : Int
  wholePoint : Bool

namespace Style

def positional (style : Style) (digits : List Char) (power : Int) : List Char :=
  if 0 ≤ power then
    let whole := power.toNat + 1
    if digits.length ≤ whole then
      digits ++ List.replicate (whole - digits.length) '0' ++
        (if style.wholePoint then ['.', '0'] else [])
    else digits.take whole ++ '.' :: digits.drop whole
  else '0' :: '.' :: List.replicate ((-power).toNat - 1) '0' ++ digits

def exponential (digits : List Char) (power : Int) : List Char :=
  let mark := if power < 0 then '-' else '+'
  let size := Nat.toDigits 10 power.natAbs
  let fraction := if digits.length ≤ 1 then [] else '.' :: digits.drop 1
  digits.take 1 ++ fraction ++ 'e' :: mark ::
    (List.replicate (2 - size.length) '0' ++ size)

def write (style : Style) (d : Digits) : List Char :=
  let digits := Nat.toDigits 10 d.coefficient
  if style.least ≤ d.power ∧ d.power < style.most then style.positional digits d.power
  else exponential digits d.power

def text (style : Style) (choose : Nat → Nat → Digits) (x : Float) : List Char :=
  match Binary.ofFloat x with
  | .nan => ['n', 'a', 'n']
  | .infinite negative => (if negative then ['-'] else []) ++ ['i', 'n', 'f']
  | .finite negative mantissa exponent =>
    let size :=
      if mantissa = 0 then style.write ⟨0, 0⟩
      else
        let (num, den) := Binary.fraction mantissa exponent
        style.write (choose num den)
    (if negative then ['-'] else []) ++ size

end Style

/-- The shortest text of a double that reads back: positional from 0.0001 up to ten to the 16, with
a digit after the point. -/
def shortestText (x : Float) : List Char :=
  Style.text ⟨-4, 16, true⟩ (Digits.shortest x.abs) x

def significantText (n : Nat) (x : Float) : List Char :=
  Style.text ⟨-4, n, false⟩ (Digits.rounded n) x

end Immittance
