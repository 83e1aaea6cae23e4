import Immittance.Calculation.Rules

/-!
# The schema of a calculation file

A calculation file is a mapping whose only field is a list of calculations, at least one. A
calculation is a mapping with exactly a name, an expression and a frequency. Names are identifiers
and differ from each other.

Names are compared while they may still be of any type. The rule raises an error where a name cannot
be compared, or where names that several calculations have cannot be written.
-/

set_option autoImplicit false

namespace Immittance.Schema

open Letter

/-! ## Names -/

def isNameStart (c : Char) : Bool := ('a' ≤ c && c ≤ 'z') || ('A' ≤ c && c ≤ 'Z') || c == '_'

def isNamePart (c : Char) : Bool := isNameStart c || ('0' ≤ c && c ≤ '9')

/-- Whether characters are an identifier. One line feed at the end is ignored. -/
def isIdentifier : List Char → Bool
  | [] => false
  | c :: s =>
    let rest := s.dropWhile isNamePart
    isNameStart c && (rest.isEmpty || rest == ['\n'])

section
variable {α : Type} [Letter α]

def isName (s : List α) : Bool := (s.mapM char?).any isIdentifier

def nameRule : OwnRule α
  | .text s => .ok (if isName s then [] else [.badName s])
  | _ => .ok []

def names : List (Value α) → List (Value α)
  | [] => []
  | .map es :: vs =>
    match Value.get? (word "name") es with
    | none | some .null => names vs
    | some v => v :: names vs
  | _ :: vs => names vs

def repeated (seen : List (Value α)) : List (Value α) → Except (Raised α) (List (Value α))
  | [] => .ok []
  | v :: vs =>
    match v.notKey? with
    | some e => .error e
    | none =>
      if seen.any (·.same v) then do return v :: (← repeated seen vs)
      else repeated (v :: seen) vs

def distinct (vs : List (Value α)) : List (Value α) :=
  vs.foldl (fun found v => if found.any (·.same v) then found else found ++ [v]) []

def duplicates (vs : List (Value α)) : Except (Raised α) (List (Value α)) := do
  Order.sortBy Value.before (distinct (← repeated [] (names vs)))

def namesRule : OwnRule α
  | .list vs => do
    let shared ← duplicates vs
    if shared.isEmpty then return []
    else
      let complaint := Complaint.duplicates shared
      let _ ← complaint.message
      return [complaint]
  | _ => .ok []

/-! ## The schema -/

def listField : String := "calculations"

def nameRules : Rules α where
  types := [.text]
  mayBeEmpty := false
  own := [nameRule]

def expressionRules : Rules α where
  types := [.text]
  mayBeEmpty := false

def frequencyRules : Rules α where
  types := [.number, .text]

def fields : FieldRules α :=
  [("name".toList, nameRules), ("expression".toList, expressionRules),
   ("frequency".toList, frequencyRules)]

def calculation : Rules α where
  types := [.mapping]
  fields := some fields

def list : Rules α where
  types := [.list]
  least := 1
  own := [namesRule]
  items := some calculation

def document : FieldRules α := [(listField.toList, list)]

end

end Immittance.Schema
