import Immittance.Decimal.Basic
import Immittance.Text.Blank
import Immittance.Text.Digit

/-!
# Reading numerals

A numeral is an optional sign, digits with at most one point among or around them, and an optional
exponent. Digits of any script count. A number in words is a numeral or one of the names of what is
not finite, in any case and with blanks around.
-/

set_option autoImplicit false

namespace Immittance

open Text

namespace Decimal

def splitSign : List Char → Bool × List Char
  | '-' :: s => (true, s)
  | '+' :: s => (false, s)
  | s => (false, s)

def readExponent? : List Char → Option Int
  | [] => some 0
  | c :: s =>
    if c = 'e' ∨ c = 'E' then
      let (negative, ds) := splitSign s
      if ds.isEmpty || !ds.all isDigit then none
      else some (if negative then -(digitsValue ds : Int) else digitsValue ds)
    else none

def splitFraction : List Char → List Char × List Char
  | '.' :: s => (s.takeWhile isDigit, s.dropWhile isDigit)
  | s => ([], s)

def read? (s : List Char) : Option Decimal :=
  let (negative, s) := splitSign s
  let whole := s.takeWhile isDigit
  let (fraction, rest) := splitFraction (s.dropWhile isDigit)
  if whole.isEmpty && fraction.isEmpty then none
  else (readExponent? rest).map fun e =>
    ⟨negative, digitsValue (whole ++ fraction), e - fraction.length⟩

def nonFinite? (s : List Char) : Option Float :=
  let s := s.map Char.toLower
  if s = ['i', 'n', 'f'] ∨ s = ['i', 'n', 'f', 'i', 'n', 'i', 't', 'y'] then some (1 / 0)
  else if s = ['n', 'a', 'n'] then some (0 / 0)
  else none

def readFloat? (s : List Char) : Option Float :=
  let s := trim s
  let (negative, word) := splitSign s
  match nonFinite? word with
  | some x => some (if negative then -x else x)
  | none => (read? s).map toFloat

end Decimal

end Immittance
