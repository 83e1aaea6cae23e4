import Immittance.Decimal.Basic

/-!
# Significant digits

A positive fraction is put on the decimal grid of its first `n` digits. Rounding goes to the nearer
grid point, from the middle to the even one. The shortest digits of a double are those of the
coarsest grid with a point that reads back as the double; of two such points the nearer is taken.
-/

set_option autoImplicit false

namespace Immittance

structure Digits where
  coefficient : Nat
  power : Int
deriving DecidableEq, Repr

namespace Digits

def powerOf (num den : Nat) : Int :=
  if den ≤ num then (digitCount (num / den) : Int) - 1
  else
    let d := digitCount (den / num)
    if den ≤ num * Nat.pow 10 (d - 1) then -((d : Int) - 1) else -(d : Int)

def scaled (num den : Nat) (power : Int) : Nat × Nat :=
  if 0 ≤ power then (num, den * Nat.pow 10 power.toNat)
  else (num * Nat.pow 10 (-power).toNat, den)

def strip (coefficient : Nat) : Nat :=
  if h : coefficient ≠ 0 ∧ coefficient % 10 = 0 then strip (coefficient / 10) else coefficient
termination_by coefficient
decreasing_by omega

def ofGrid (n : Nat) (power : Int) (coefficient : Nat) : Digits :=
  ⟨strip coefficient, if Nat.pow 10 n ≤ coefficient then power + 1 else power⟩

def rounded (n : Nat) (num den : Nat) : Digits :=
  let power := powerOf num den
  let (a, b) := scaled num den (power - n + 1)
  ofGrid n power (roundHalfEven a b)

def numeral (n : Nat) (power : Int) (coefficient : Nat) : Float :=
  Decimal.nearest coefficient (power - n + 1)

/-- The nearer of the two grid points around the fraction that reads back as `x`, on the grid of
`n` digits. -/
def readingBack? (x : Float) (num den : Nat) (power : Int) (n : Nat) : Option Digits :=
  let (a, b) := scaled num den (power - n + 1)
  let near := roundHalfEven a b
  let other := if near = a / b then near + 1 else a / b
  ([near, other].find? fun c => numeral n power c == x).map (ofGrid n power)

def shortest (x : Float) (num den : Nat) : Digits :=
  let power := powerOf num den
  match (List.range 17).findSome? fun i => readingBack? x num den power (i + 1) with
  | some d => d
  | none => rounded 17 num den

end Digits

end Immittance
