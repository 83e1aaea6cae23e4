import Immittance.Decimal.Style
import Immittance.Scalar

/-!
# Phasors

A phasor is a complex number in its two parts, the value of an impedance. Its reciprocal exists
unless the square of its size is zero.
-/

set_option autoImplicit false

namespace Immittance

structure Phasor (α : Type) where
  re : α
  im : α
deriving DecidableEq, Repr

namespace Phasor

section
variable {α : Type} [Scalar α]

def zero : Phasor α := ⟨Scalar.zero, Scalar.zero⟩

def add (z w : Phasor α) : Phasor α := ⟨z.re + w.re, z.im + w.im⟩

def mul (z w : Phasor α) : Phasor α :=
  ⟨z.re * w.re - z.im * w.im, z.re * w.im + z.im * w.re⟩

def square (z : Phasor α) : α := z.re * z.re + z.im * z.im

def reciprocal? (z : Phasor α) : Option (Phasor α) :=
  let d := z.square
  if Scalar.isZero d then none else some ⟨z.re / d, -z.im / d⟩

end

def noReciprocal : String := "Division by zero in complex reciprocal"

def same (z w : Phasor Float) : Bool := z.re == w.re && z.im == w.im

/-- The size. The larger part is taken out of the root, so that its square cannot overflow. -/
def magnitude (z : Phasor Float) : Float :=
  let a := z.re.abs
  let b := z.im.abs
  if a.isInf || b.isInf then 1 / 0
  else if a.isNaN || b.isNaN then 0 / 0
  else
    let large := if a < b then b else a
    let small := if a < b then a else b
    if large == 0 then 0
    else
      let ratio := small / large
      large * (1 + ratio * ratio).sqrt

def phase (z : Phasor Float) : Float :=
  Float.atan2 z.im z.re * (180 / 3.141592653589793)

def text (z : Phasor Float) : List Char :=
  let re := significantText 6 z.re
  if 0 ≤ z.im then re ++ [' ', '+', ' '] ++ significantText 6 z.im ++ ['j']
  else re ++ [' ', '-', ' '] ++ significantText 6 (-z.im) ++ ['j']

end Phasor

end Immittance
