/-!
# Doubles as binary fractions

A double is no number, an infinity, or a mantissa times a power of two. The parts are read from its
sixty-four bits: one sign, eleven of the exponent, fifty-two of the mantissa. The other way, a
fraction goes to the nearest double, from the middle of two to the one with the even mantissa.
-/

set_option autoImplicit false

namespace Immittance

def roundHalfEven (num den : Nat) : Nat :=
  let q := num / den
  let r := num % den
  if 2 * r < den then q
  else if den < 2 * r then q + 1
  else q + q % 2

inductive Binary where
  | nan
  | infinite (negative : Bool)
  | finite (negative : Bool) (mantissa : Nat) (exponent : Int)
deriving DecidableEq, Repr

namespace Binary

def ofFloat (x : Float) : Binary :=
  let bits := x.toBits.toNat
  let negative := bits / Nat.pow 2 63 % 2 == 1
  let power : Nat := bits / Nat.pow 2 52 % Nat.pow 2 11
  let rest := bits % Nat.pow 2 52
  if power = 2047 then
    if rest = 0 then .infinite negative else .nan
  else if power = 0 then .finite negative rest (-1074)
  else .finite negative (Nat.pow 2 52 + rest) ((power : Int) - 1075)

def fraction (mantissa : Nat) (exponent : Int) : Nat × Nat :=
  if 0 ≤ exponent then (mantissa * Nat.pow 2 exponent.toNat, 1)
  else (mantissa, Nat.pow 2 (-exponent).toNat)

def floor (x : Float) : Int :=
  match ofFloat x with
  | .finite negative mantissa exponent =>
    let (num, den) := fraction mantissa exponent
    if negative then -(((num + den - 1) / den : Nat) : Int) else ((num / den : Nat) : Int)
  | _ => 0

def shifted (num den : Nat) (exponent : Int) : Nat × Nat :=
  if 0 ≤ exponent then (num, den * Nat.pow 2 exponent.toNat)
  else (num * Nat.pow 2 (-exponent).toNat, den)

def exponentOf (num den : Nat) : Int :=
  let guess : Int := (num.log2 : Int) - den.log2 - 52
  let (a, b) := shifted num den guess
  max (if a / b < Nat.pow 2 52 then guess - 1 else guess) (-1074)

def infinityBits : Nat := 2047 * Nat.pow 2 52

/-- The double nearest to a fraction. A mantissa that rounds up to the next power of two carries
into the exponent by itself. -/
def nearest (num den : Nat) : Float :=
  if num = 0 then Float.ofBits 0
  else
    let exponent := exponentOf num den
    let (a, b) := shifted num den exponent
    let bits := (exponent + 1074).toNat * Nat.pow 2 52 + roundHalfEven a b
    Float.ofBits (min bits infinityBits).toUInt64

end Binary

end Immittance
