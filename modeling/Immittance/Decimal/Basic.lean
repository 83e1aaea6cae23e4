import Immittance.Decimal.Binary

/-!
# Decimal numerals and the doubles they denote

A numeral is a whole coefficient times a power of ten, with a sign. It denotes the nearest double.
Numerals beyond the largest double denote an infinity and those below the half of the smallest one
denote zero; both keep the sign.
-/

set_option autoImplicit false

namespace Immittance

def digitCount (n : Nat) : Nat := (Nat.toDigits 10 n).length

structure Decimal where
  negative : Bool
  coefficient : Nat
  exponent : Int
deriving DecidableEq, Repr

namespace Decimal

def tooLarge : Int := 310

def tooSmall : Int := -324

def nearest (coefficient : Nat) (exponent : Int) : Float :=
  if coefficient = 0 then Float.ofBits 0
  else if tooLarge ≤ exponent + digitCount coefficient then
    Float.ofBits Binary.infinityBits.toUInt64
  else if exponent + digitCount coefficient ≤ tooSmall then Float.ofBits 0
  else if 0 ≤ exponent then Binary.nearest (coefficient * Nat.pow 10 exponent.toNat) 1
  else Binary.nearest coefficient (Nat.pow 10 (-exponent).toNat)

def toFloat (d : Decimal) : Float :=
  let x := nearest d.coefficient d.exponent
  if d.negative then -x else x

end Decimal

end Immittance
