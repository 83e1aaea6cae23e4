/-!
# Circuits

A circuit is one part (a resistor, a capacitor or an inductor with its value) or a group of circuits
wired in series or in parallel. A group may be empty.
-/

set_option autoImplicit false

namespace Immittance

inductive Kind where
  | resistor
  | capacitor
  | inductor
deriving DecidableEq, Repr

namespace Kind

def letter : Kind → Char
  | resistor => 'R'
  | capacitor => 'C'
  | inductor => 'L'

def word : Kind → String
  | resistor => "Resistor"
  | capacitor => "Capacitor"
  | inductor => "Inductor"

def unit : Kind → String
  | resistor => "ohm"
  | capacitor => "farad"
  | inductor => "henry"

end Kind

inductive Wiring where
  | series
  | parallel
deriving DecidableEq, Repr

def Wiring.word : Wiring → List Char
  | .series => ['s', 'e', 'r', 'i', 'e', 's']
  | .parallel => ['p', 'a', 'r', 'a', 'l', 'l', 'e', 'l']

structure Part (α : Type) where
  kind : Kind
  value : α
deriving DecidableEq, Repr

inductive Circuit (α : Type) where
  | part (p : Part α)
  | group (wiring : Wiring) (members : List (Circuit α))
deriving Repr

namespace Circuit

section
variable {α : Type}

mutual

def size : Circuit α → Nat
  | .part _ => 1
  | .group _ members => 1 + sizes members

def sizes : List (Circuit α) → Nat
  | [] => 0
  | c :: cs => size c + sizes cs

end

theorem sizes_append (cs ds : List (Circuit α)) : sizes (cs ++ ds) = sizes cs + sizes ds := by
  induction cs with
  | nil => simp [sizes]
  | cons c cs ih => simp [sizes, ih, Nat.add_assoc]

def partsFrom (found : List (Part α)) : List (Circuit α) → List (Part α)
  | [] => found.reverse
  | .part p :: rest => partsFrom (p :: found) rest
  | .group _ members :: rest => partsFrom found (members ++ rest)
termination_by waiting => sizes waiting
decreasing_by
  · simp [sizes, size]
  · simp [sizes_append, sizes, size]

/-- The parts of a circuit from left to right. The groups still to visit wait in a list, so the
depth of a circuit is not bounded by the call stack. -/
def parts (c : Circuit α) : List (Part α) := partsFrom [] [c]

end

mutual

def same : Circuit Float → Circuit Float → Bool
  | .part p, .part q => p.kind == q.kind && p.value == q.value
  | .group w cs, .group v ds => w == v && sameAll cs ds
  | _, _ => false

def sameAll : List (Circuit Float) → List (Circuit Float) → Bool
  | [], [] => true
  | c :: cs, d :: ds => same c d && sameAll cs ds
  | _, _ => false

end

inductive Entry where
  | part (p : Part Float)
  | group (wiring : Wiring) (size : Nat)

mutual

def preorder : Circuit Float → List Entry
  | .part p => [.part p]
  | .group w cs => .group w cs.length :: preorders cs

def preorders : List (Circuit Float) → List Entry
  | [] => []
  | c :: cs => preorder c ++ preorders cs

end

end Circuit

end Immittance
