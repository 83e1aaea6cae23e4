import Immittance.Circuit
import Immittance.Decimal.Style

/-!
# Descriptions

The canonical text of a circuit: a part is its letter with its value in parentheses, a group its
wiring with its members in parentheses, a comma and a space between them. Circuits and texts still
to write wait in a list, so the depth of a circuit is not bounded by the call stack.
-/

set_option autoImplicit false

namespace Immittance

namespace Part

def describe (p : Part Float) : List Char :=
  p.kind.letter :: '(' :: shortestText p.value ++ [')']

end Part

namespace Circuit

inductive Pending where
  | circuit (c : Circuit Float)
  | text (t : List Char)

theorem size_pos {α : Type} (c : Circuit α) : 0 < c.size := by
  cases c with
  | part => simp [size]
  | group => simp only [size]; omega

namespace Pending

def weight : Pending → Nat
  | .circuit c => 4 * c.size - 1
  | .text _ => 1

def weights : List Pending → Nat
  | [] => 0
  | item :: items => weight item + weights items

def separated : List (Circuit Float) → List Pending
  | [] => []
  | [c] => [.circuit c]
  | c :: d :: rest => .circuit c :: .text [',', ' '] :: separated (d :: rest)

def opened (w : Wiring) (members : List (Circuit Float)) : List Pending :=
  .text (w.word ++ ['(']) :: separated members ++ [.text [')']]

theorem weights_append (xs ys : List Pending) :
    weights (xs ++ ys) = weights xs + weights ys := by
  induction xs with
  | nil => simp [weights]
  | cons x xs ih => simp only [List.cons_append, weights, ih]; omega

theorem weights_separated_le (cs : List (Circuit Float)) :
    weights (separated cs) ≤ 4 * sizes cs := by
  induction cs with
  | nil => simp [separated, weights, sizes]
  | cons c cs ih =>
    have h := size_pos c
    cases cs with
    | nil => simp [separated, weights, weight, sizes]
    | cons d rest => simp [separated, weights, weight, sizes] at *; omega

theorem weights_opened (w : Wiring) (members : List (Circuit Float)) :
    weights (opened w members) = weights (separated members) + 2 := by
  simp [opened, weights, weight, weights_append]; omega

end Pending

def describeFrom (done : List (List Char)) : List Pending → List Char
  | [] => done.reverse.flatten
  | .text t :: rest => describeFrom (t :: done) rest
  | .circuit (.part p) :: rest => describeFrom (p.describe :: done) rest
  | .circuit (.group w members) :: rest => describeFrom done (Pending.opened w members ++ rest)
termination_by waiting => Pending.weights waiting
decreasing_by
  · simp [Pending.weights, Pending.weight]
  · simp [Pending.weights, Pending.weight, size]
  · have h := Pending.weights_separated_le members
    have k := Pending.weights_opened w members
    simp [Pending.weights, Pending.weight, Pending.weights_append, size] at *
    omega

def describe (c : Circuit Float) : List Char := describeFrom [] [.circuit c]

end Circuit

end Immittance
