import Immittance.Yaml.Node
import Immittance.Yaml.Number

/-!
# The content of a document

The value of a tree of nodes. A mapping takes in the entries of the mappings that it merges; its own
entries come after them. Collections are filled level by level, so of several faults the one that is
reported lies on the outermost level, and there the first in the text; only that something cannot be
merged is found before all else about a mapping.

All bytes are decoded and all tokens found before the first of them is read, and nesting has no limit.
A reader that takes in a text bit by bit may meet another fault first.
-/

set_option autoImplicit false

namespace Immittance.Yaml

abbrev Outcome (α : Type) := Except (Nat × Fault) α

/-- The fault to report of two, the first given standing earlier in the text. -/
def outer (f g : Nat × Fault) : Nat × Fault := if g.1 < f.1 then g else f

def gather {α : Type} : List (Outcome α) → Outcome (List α)
  | [] => .ok []
  | r :: rs =>
    match r, gather rs with
    | .ok a, .ok as => .ok (a :: as)
    | .error f, .ok _ => .error f
    | .ok _, .error g => .error g
    | .error f, .error g => .error (outer f g)

def paired {α β : Type} (a : Outcome α) (b : Outcome β) : Outcome (α × β) :=
  match a, b with
  | .ok a, .ok b => .ok (a, b)
  | .error f, .ok _ => .error f
  | .ok _, .error g => .error g
  | .error f, .error g => .error (outer f g)

namespace Node

def tag : Node → Tag
  | .scalar t _ => t
  | .sequence t _ => t
  | .mapping t _ => t
  | .within _ => .null

mutual

def text : Node → Except Fault (List Char)
  | .scalar _ s => .ok s
  | .mapping _ es => defaultText es
  | _ => malformed

def defaultText : List (Node × Node) → Except Fault (List Char)
  | [] => malformed
  | (k, v) :: es => if k.tag = .value then text v else defaultText es

end

def asScalar (level : Nat) (n : Node) : Outcome Value :=
  (do scalarValue n.tag (← n.text)).mapError fun f => (level, f)

def unfit {α : Type} (level : Nat) : Outcome α := .error (level, .malformed)

end Node

namespace Tag

def isCollection : Tag → Bool
  | ordered | pairs | set | sequence | mapping => true
  | _ => false

end Tag

namespace Node

def keyValue (level : Nat) (k : Node) : Outcome Value :=
  if k.tag.isCollection then unfit level
  else if k.tag = .value then (k.text.map .text).mapError fun f => (level, f)
  else asScalar level k

mutual

def badMerge : List (Node × Node) → Bool
  | [] => false
  | (k, v) :: es => (k.tag = .merge && cannotMerge v) || badMerge es

def cannotMerge : Node → Bool
  | .mapping _ es => badMerge es
  | .sequence _ ns => anyCannotMerge ns
  | _ => true

def anyCannotMerge : List Node → Bool
  | [] => false
  | .mapping _ es :: ns => badMerge es || anyCannotMerge ns
  | _ :: _ => true

end

mutual

def valueAt (level : Nat) (n : Node) : Outcome Value :=
  match n with
  | .sequence .sequence ns => (gather (valuesAt (level + 1) ns)).map .list
  | .sequence .ordered ns => (gather (pairsAt (level + 1) ns)).map .pairs
  | .sequence .pairs ns => (gather (pairsAt (level + 1) ns)).map .pairs
  | .mapping .mapping es =>
    if badMerge es then unfit (level + 1)
    else
      (gather (mergedAt (level + 1) es ++ ownAt (level + 1) es)).map fun es =>
        .map (es.foldl (fun found e => Value.insert found e.1 e.2) [])
  | .mapping .set es =>
    if badMerge es then unfit (level + 1)
    else
      (gather (mergedAt (level + 1) es ++ ownAt (level + 1) es)).map fun es =>
        .set ((es.foldl (fun found e => Value.insert found e.1 .null) []).map (·.1))
  | n => if n.tag.isCollection then unfit (level + 1) else asScalar level n

def valuesAt (level : Nat) : List Node → List (Outcome Value)
  | [] => []
  | n :: ns => valueAt level n :: valuesAt level ns

def pairsAt (level : Nat) : List Node → List (Outcome (Value × Value))
  | [] => []
  | .mapping _ [(k, v)] :: ns =>
    paired (valueAt level k) (valueAt level v) :: pairsAt level ns
  | _ :: ns => unfit level :: pairsAt level ns

def ownAt (level : Nat) : List (Node × Node) → List (Outcome (Value × Value))
  | [] => []
  | (k, v) :: es =>
    if k.tag = .merge then ownAt level es
    else paired (keyValue level k) (valueAt level v) :: ownAt level es

def mergedAt (level : Nat) : List (Node × Node) → List (Outcome (Value × Value))
  | [] => []
  | (k, v) :: es => (if k.tag = .merge then mergeAt level v else []) ++ mergedAt level es

/-- The entries to merge from a mapping, or from mappings of which the first counts most. -/
def mergeAt (level : Nat) : Node → List (Outcome (Value × Value))
  | .mapping _ es => mergedAt level es ++ ownAt level es
  | .sequence _ ns => mergeAllAt level ns
  | _ => []

def mergeAllAt (level : Nat) : List Node → List (Outcome (Value × Value))
  | [] => []
  | .mapping _ es :: ns => mergeAllAt level ns ++ (mergedAt level es ++ ownAt level es)
  | _ :: ns => mergeAllAt level ns

end

def value (n : Node) : Except Fault Value := (n.valueAt 0).mapError (·.2)

end Node

def ofText (s : List Char) : Except Fault Value :=
  match admit? s with
  | none => malformed
  | some s => do (← onlyDocument (← tokens s)).value

def read (bs : List Nat) : Except Raised Value := do
  (ofText (← (Text.decodeUtf8 bs).mapError Text.DecodeFault.raised)).mapError Fault.raised

end Immittance.Yaml
