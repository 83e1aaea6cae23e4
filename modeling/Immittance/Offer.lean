import Immittance.Description
import Immittance.Document.Value
import Immittance.Impedance

/-!
# Offers

What is offered where a circuit is expected: a circuit or some other value. Only circuits have parts,
impedances and members; a text stands for its own description. Misuse of a value is reported by the
name of its type.
-/

set_option autoImplicit false

namespace Immittance

inductive Misuse where
  | notCircuit (type : String)
  | noCircuit
  | badMember (type : String)
  | notGroup (type : String)
  | noExpression
  | noToken
  | operand (isSum : Bool) (v : Value)

namespace Misuse

def repeats : Value → Bool
  | .text _ | .list _ | .pairs _ | .bytes _ => true
  | _ => false

def message : Misuse → String
  | notCircuit type => "Unsupported circuit element type: " ++ type
  | noCircuit => "element must not be None"
  | badMember type => "ConnectionNode children must be circuit elements, got " ++ type
  | notGroup type => "CompositeCircuit root must be a ConnectionNode, got " ++ type
  | noExpression => "expression is None"
  | noToken => "token is None"
  | operand isSum v =>
    if !isSum && repeats v then "can't multiply sequence by non-int of type 'Complex'"
    else
      "unsupported operand type(s) for " ++ (if isSum then "+" else "*") ++ ": 'Complex' and '" ++
        v.typeName ++ "'"

end Misuse

def Circuit.typeName {α : Type} : Circuit α → String
  | .part p => p.kind.word
  | .group _ _ => "ConnectionNode"

inductive Offer where
  | circuit (c : Circuit Float)
  | value (v : Value)

namespace Offer

def typeName : Offer → String
  | circuit c => c.typeName
  | value v => v.typeName

def circuit? : Offer → Except Misuse (Circuit Float)
  | circuit c => .ok c
  | value v => .error (.notCircuit v.typeName)

def description : Offer → Except Misuse (List Char)
  | circuit c => .ok c.describe
  | value (.text s) => .ok s
  | value v => .error (.notCircuit v.typeName)

def parts (o : Offer) : Except Misuse (List (Part Float)) := do return (← o.circuit?).parts

def network : Offer → Except Misuse (Circuit Float)
  | circuit (.group w cs) => .ok (.group w cs)
  | o => .error (.notGroup o.typeName)

def member : Offer → Except Misuse (Circuit Float)
  | circuit c => .ok c
  | o => .error (.badMember o.typeName)

def group (w : Wiring) (offers : List Offer) : Except Misuse Offer := do
  return .circuit (.group w (← offers.mapM member))

def wrap (w : Wiring) (depth : Nat) (o : Offer) : Except Misuse Offer :=
  match depth with
  | 0 => .ok o
  | n + 1 => do wrap w n (← group w [o])

end Offer

end Immittance
