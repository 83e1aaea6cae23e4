import Immittance.Decimal.Style

/-!
# Amounts

The number in front of a unit is whole or real. Whole amounts are exact as long as they meet whole
amounts; a quotient of two is the double nearest to it. Where a real amount takes part, a whole one
becomes the nearest double, if there is one.
-/

set_option autoImplicit false

namespace Immittance

inductive NumberFault where
  | wholeDivision
  | realDivision
  | zeroPower
  | wholeTooLarge
  | quotientTooLarge
  | powerTooLarge
  | notReal
deriving DecidableEq, Repr

def NumberFault.message : NumberFault → String
  | wholeDivision => "division by zero"
  | realDivision => "float division by zero"
  | zeroPower => "0.0 cannot be raised to a negative power"
  | wholeTooLarge => "int too large to convert to float"
  | quotientTooLarge => "integer division result too large for a float"
  | powerTooLarge => "(34, 'Numerical result out of range')"
  | notReal => "float() argument must be a string or a real number, not 'complex'"

def realOfWhole (n : Int) : Except NumberFault Float :=
  let x := Binary.nearest n.natAbs 1
  if x.isFinite then .ok (if n < 0 then -x else x) else .error .wholeTooLarge

inductive Amount where
  | whole (n : Int)
  | real (x : Float)
deriving DecidableEq, Repr

namespace Amount

def toReal : Amount → Except NumberFault Float
  | whole n => realOfWhole n
  | real x => .ok x

def combine (f : Int → Int → Int) (g : Float → Float → Float) (a b : Amount) :
    Except NumberFault Amount :=
  match a, b with
  | whole m, whole n => .ok (whole (f m n))
  | a, b => do
    let x ← a.toReal
    let y ← b.toReal
    return real (g x y)

def add : Amount → Amount → Except NumberFault Amount := combine (· + ·) (· + ·)

def sub : Amount → Amount → Except NumberFault Amount := combine (· - ·) (· - ·)

def mul : Amount → Amount → Except NumberFault Amount := combine (· * ·) (· * ·)

def divReal (a b : Amount) : Except NumberFault Amount := do
  let x ← a.toReal
  let y ← b.toReal
  if y == 0 then throw .realDivision
  return real (x / y)

def div (a b : Amount) : Except NumberFault Amount :=
  match a, b with
  | whole m, whole n =>
    if n = 0 then .error .wholeDivision
    else
      let x := Binary.nearest m.natAbs n.natAbs
      if x.isFinite then .ok (real (if (m < 0) != (n < 0) then -x else x))
      else .error .quotientTooLarge
  | a, b => divReal a b

def isIntegral (y : Float) : Bool :=
  match Binary.ofFloat y with
  | .finite _ m e => 0 ≤ e || m % Nat.pow 2 (-e).toNat == 0
  | _ => true

def powFraction (num den : Nat) (n : Int) : Nat × Nat :=
  if 0 ≤ n then (Nat.pow num n.toNat, Nat.pow den n.toNat)
  else (Nat.pow den (-n).toNat, Nat.pow num (-n).toNat)

def largestPower : Nat := 1100

/-- The power of a double to a whole exponent, if it is a double itself. Those of zero and one repeat
from the first on. -/
def exactPower? (x y : Float) : Option Float :=
  match Binary.ofFloat x with
  | .finite negative m e =>
    let (num, den) := Binary.fraction m e
    let n := Binary.floor y
    let k := if num = 0 ∨ num = den then max (-1) (min n 1) else n
    if !y.isFinite || !isIntegral y || largestPower < k.natAbs then none
    else
      let (a, b) := powFraction num den k
      let size := Binary.nearest a b
      match Binary.ofFloat size with
      | .finite _ l f =>
        let (p, q) := Binary.fraction l f
        if p * b = a * q then some (if negative && n % 2 != 0 then -size else size) else none
      | _ => none
  | _ => none

def powReal (x y : Float) : Except NumberFault Float :=
  if x == 0 && y < 0 then .error .zeroPower
  else if x.isFinite && y.isFinite && x < 0 && !isIntegral y then .error .notReal
  else
    let r := (exactPower? x y).getD (Float.pow x y)
    if x.isFinite && y.isFinite && r.isInf then .error .powerTooLarge else .ok r

def pow (a b : Amount) : Except NumberFault Amount :=
  match a, b with
  | whole m, whole n =>
    if 0 ≤ n then .ok (whole (Int.pow m n.toNat))
    else do
      let x ← realOfWhole m
      let y ← realOfWhole n
      return real (← powReal x y)
  | a, b => do
    let x ← a.toReal
    let y ← b.toReal
    return real (← powReal x y)

def isZero : Amount → Bool
  | whole n => n == 0
  | real x => x == 0

def isOne : Amount → Bool
  | whole n => n == 1
  | real x => x == 1

def isNaN : Amount → Bool
  | whole _ => false
  | real x => x.isNaN

def isPositive : Amount → Bool
  | whole n => 0 < n
  | real x => 0 < x

def abs : Amount → Amount
  | whole n => whole n.natAbs
  | real x => real x.abs

def same (a b : Amount) : Bool :=
  match a.sub b with
  | .ok d => d.isZero
  | .error _ => false

def text : Amount → List Char
  | whole n => (toString n).toList
  | real x => significantText 6 x

end Amount

end Immittance
