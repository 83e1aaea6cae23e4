import Immittance.Document.Order
import Immittance.Document.Value

/-!
# Findings

What a check of a document finds: a complaint about a value, or findings inside of it by field. A
complaint in words of its own is made by a rule of the schema, any other by the check itself.
-/

set_option autoImplicit false

namespace Immittance

open Letter

inductive Complaint (α : Type) where
  | required
  | unknown
  | nullValue
  | emptyValue
  | tooShort (least : Nat)
  | wrongType (expected : String)
  | badName (name : List α)
  | duplicates (names : List (Value α))

inductive Finding (α : Type) where
  | complaint (c : Complaint α)
  /-- Findings inside of a value: each of its fields at fault with what was found there. -/
  | inside (fields : List (Value α × List (Finding α)))

abbrev Findings (α : Type) := List (Value α × List (Finding α))

section
variable {α : Type} [Letter α]

namespace Complaint

def message : Complaint α → Except (Raised α) (List α)
  | required => .ok (word "required field")
  | unknown => .ok (word "unknown field")
  | nullValue => .ok (word "null value not allowed")
  | emptyValue => .ok (word "empty values not allowed")
  | tooShort least => .ok (word "min length is " ++ spell (toString least).toList)
  | wrongType expected => .ok (word "must be of " ++ word expected ++ word " type")
  | badName name =>
    .ok (word "Name '" ++ name ++
      word "' is invalid. Names must start with a letter or underscore, and can only contain letters, " ++
      word "numbers, and underscores.")
  | duplicates names => do
    return word "Duplicate values found for key 'name': " ++ (← (Value.list names).shown)

omit [Letter α] in
def isSpecial : Complaint α → Bool
  | badName _ | duplicates _ => true
  | _ => false

end Complaint

namespace Finding

mutual

def shown : Finding α → Except (Raised α) (List α)
  | complaint c => do return Text.quoted (← c.message)
  | inside fields => do
    return Value.enclosed '\x7b' '\x7d' (Value.commaSeparated (← shownFields fields))

def shownAll : List (Finding α) → Except (Raised α) (List (List α))
  | [] => .ok []
  | f :: fs => do
    let s ← shown f
    return s :: (← shownAll fs)

def shownFields : List (Value α × List (Finding α)) → Except (Raised α) (List (List α))
  | [] => .ok []
  | (key, fs) :: rest => do
    let k ← key.shown
    let items ← shownAll fs
    return (k ++ spell [':', ' '] ++ Value.enclosed '[' ']' (Value.commaSeparated items)) ::
      (← shownFields rest)

end

def listed (fs : List (Finding α)) : Except (Raised α) (List α) := do
  return Value.enclosed '[' ']' (Value.commaSeparated (← shownAll fs))

end Finding

namespace Findings

def sorted (fs : Findings α) : Except (Raised α) (Findings α) :=
  Order.sortBy (fun a b => a.1.before b.1) fs

def line (opening : String) (f : Value α × List (Finding α)) : Except (Raised α) (List α) := do
  let field ← f.1.plain
  return word opening ++ field ++ spell ['\x27', ':', ' '] ++ (← Finding.listed f.2)

def text (opening : String) (fs : Findings α) : Except (Raised α) (List α) := do
  return (spell ['\n']).intercalate (← (← fs.sorted).mapM (line opening))

end Findings

end

end Immittance
