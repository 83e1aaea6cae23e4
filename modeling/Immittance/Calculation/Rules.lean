import Immittance.Calculation.Finding

/-!
# Rules for documents

The rules for a value: the types it may have, whether it may be empty and how much it has to hold,
rules that the schema brings along, and rules for its items or its fields. Nothing, the value, is of no
type. A mapping with rules for its fields may have no others.
-/

set_option autoImplicit false

namespace Immittance

inductive ValueType where
  | list
  | mapping
  | text
  | number

namespace ValueType

def name : ValueType → String
  | list => "list"
  | mapping => "dict"
  | text => "string"
  | number => "number"

def admits {α : Type} : ValueType → Value α → Bool
  | list, .list _ | list, .pairs _ | list, .bytes _ => true
  | mapping, .map _ => true
  | text, .text _ => true
  | number, .int _ | number, .float _ => true
  | _, _ => false

end ValueType

namespace Value

variable {α : Type}

def size? : Value α → Option Nat
  | text s => some s.length
  | bytes bs => some bs.length
  | list vs | set vs => some vs.length
  | pairs es | map es => some es.length
  | _ => none

def members : Value α → List (Value α)
  | list vs => vs
  | pairs es => es.map fun e => .list [e.1, e.2]
  | bytes bs => bs.map fun b => .int (b : Nat)
  | _ => []

end Value

abbrev OwnRule (α : Type) := Value α → Except (Raised α) (List (Complaint α))

structure Rules (α : Type) where
  types : List ValueType
  required : Bool := true
  mayBeEmpty : Bool := true
  least : Nat := 0
  own : List (OwnRule α) := []
  items : Option (Rules α) := none
  fields : Option (List (List Char × Rules α)) := none

abbrev FieldRules (α : Type) := List (List Char × Rules α)

structure Verdict (α : Type) where
  errors : Findings α
  document : List (Value α × Value α)

abbrev Validator (α : Type) :=
  FieldRules α → List (Value α × Value α) → Except (Raised α) (Verdict α)

end Immittance
