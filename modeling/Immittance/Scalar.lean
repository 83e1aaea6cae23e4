/-!
# Numbers of a circuit

What a circuit asks of its numbers: the four operations, the sign change, zero and one, the turn of
the unit circle, and two tests. Doubles are the numbers that circuits are evaluated with; the tests
follow their order, in which the two zeros are equal and no number compares with nothing.
-/

set_option autoImplicit false

namespace Immittance

class Scalar (α : Type) extends Add α, Sub α, Mul α, Div α, Neg α where
  zero : α
  one : α
  twoPi : α
  isZero : α → Bool
  isPositive : α → Bool

instance : Scalar Float where
  zero := 0
  one := 1
  twoPi := 6.283185307179586
  isZero x := x == 0
  isPositive x := 0 < x

end Immittance
