import Immittance.Calculation.Rules

/-!
# Checking by rules

The validator that comes with this library. A value is checked for its type first and not any further
if that is wrong. The findings about one mapping are kept in the order of their fields, whole numbers
before texts and either of them before the other kind it is compared with; of two about one field, a
complaint in words of its own comes first. So fields without an order raise an error as soon as they
are compared.

Of other types than those of calculation files, and of rules that these do without, nothing is known
here. A mapping in the place of a list is taken for its rules if it has a type, which raises an error.
-/

set_option autoImplicit false

namespace Immittance

open Letter

variable {α : Type}

def ValueType.listed : List ValueType → String
  | [t] => t.name
  | ts => "[" ++ ", ".intercalate (ts.map fun t => "'" ++ t.name ++ "'") ++ "]"

section
variable [Letter α]

/-! ## Findings in order -/

namespace Finding

omit [Letter α] in
def isSpecial : Finding α → Bool
  | complaint c => c.isSpecial
  | inside _ => false

def keyBefore (a b : Value α) : Except (Raised α) Bool :=
  match a, b with
  | .text _, .text _ => a.before b
  | .text _, _ => .ok true
  | .int _, .int _ | .int _, .bool _ | .bool _, .int _ | .bool _, .bool _ => a.before b
  | .int _, _ | .bool _, _ => .ok true
  | _, _ => a.before b

def precedes (a b : Value α × Finding α) : Except (Raised α) Bool :=
  if a.1.same b.1 then .ok (a.2.isSpecial && !b.2.isSpecial) else keyBefore a.1 b.1

def add (found : List (Value α × Finding α)) (key : Value α) (f : Finding α) :
    Except (Raised α) (List (Value α × Finding α)) :=
  Order.sortBy precedes (found ++ [(key, f)])

def addAll (found : List (Value α × Finding α)) (key : Value α) :
    List (Finding α) → Except (Raised α) (List (Value α × Finding α))
  | [] => .ok found
  | f :: fs => do addAll (← add found key f) key fs

def byField (found : List (Value α × Finding α)) : Findings α :=
  found.foldl (fun fields e =>
    if fields.any (·.1.same e.1) then
      fields.map fun g => if g.1.same e.1 then (g.1, g.2 ++ [e.2]) else g
    else fields ++ [(e.1, [e.2])]) []

omit [Letter α] in
def insideOf (fields : Findings α) : List (Finding α) := if fields.isEmpty then [] else [.inside fields]

end Finding

/-! ## One value -/

abbrev ValueCheck (α : Type) := Value α → Except (Raised α) (List (Finding α))

namespace Rules

/-- Complaints about the type, where a mapping may be taken for rules of items. -/
def typeComplaints (types : List ValueType) (hasItems : Bool) (v : Value α) :
    Except (Raised α) (List (Complaint α)) :=
  match v with
  | .null => .ok [.nullValue]
  | v =>
    if types.any (·.admits v) then .ok []
    else
      match v with
      | .map es =>
        if hasItems && (Value.get? (word "type") es).isSome then
          .error (.ofType "argument of type 'NoneType' is not iterable")
        else .ok [.wrongType (ValueType.listed types)]
      | _ => .ok [.wrongType (ValueType.listed types)]

omit [Letter α] in
def sizeComplaints (mayBeEmpty : Bool) (least : Nat) (v : Value α) : List (Complaint α) :=
  match v.size? with
  | none => []
  | some n =>
    if n = 0 && !mayBeEmpty then [.emptyValue] else if n < least then [.tooShort least] else []

def memberFindings (check : ValueCheck α) (place : Nat) :
    List (Value α) → Except (Raised α) (Findings α)
  | [] => .ok []
  | v :: vs => do
    let fs ← check v
    let rest ← memberFindings check (place + 1) vs
    return if fs.isEmpty then rest else (.int place, fs) :: rest

def entryFindings (checks : List (List Char × ValueCheck α)) (e : Value α × Value α) :
    Except (Raised α) (List (Finding α)) :=
  match checks.find? fun f => e.1.same (.text (spell f.1)) with
  | some f => f.2 e.2
  | none => .ok [.complaint .unknown]

def requireFields (es : List (Value α × Value α)) (found : List (Value α × Finding α)) :
    List (List Char) → Except (Raised α) (List (Value α × Finding α))
  | [] => .ok found
  | key :: keys => do
    let found ←
      if (Value.get? (spell key) es).isSome then pure found
      else Finding.add found (.text (spell key)) (.complaint .required)
    requireFields es found keys

def mappingFindings (required : List (List Char)) (checks : List (List Char × ValueCheck α))
    (es : List (Value α × Value α)) : Except (Raised α) (Findings α) := do
  let found ← es.foldlM (fun found e => do
    Finding.addAll found e.1 (← entryFindings checks e)) []
  return Finding.byField (← requireFields es found required)

omit [Letter α] in
def requiredKeys (fs : FieldRules α) : List (List Char) :=
  (fs.filter fun f => f.2.required).map (·.1)

mutual

def check : Rules α → ValueCheck α
  | ⟨types, _, mayBeEmpty, least, own, items, fields⟩, v => do
    let wrong ← typeComplaints types items.isSome v
    if !wrong.isEmpty then return wrong.map .complaint
    else
      let special ← own.mapM fun rule => rule v
      let inItems ← checkItems items v
      let inFields ← checkFields fields v
      return (special.flatten ++ sizeComplaints mayBeEmpty least v).map .complaint ++ inItems ++ inFields

def checkItems : Option (Rules α) → ValueCheck α
  | none, _ => .ok []
  | some r, v => do return Finding.insideOf (← memberFindings (check r) 0 v.members)

def checkFields : Option (FieldRules α) → ValueCheck α
  | some fs, .map es => do return Finding.insideOf (← mappingFindings (requiredKeys fs) (checks fs) es)
  | _, _ => .ok []

def checks : List (List Char × Rules α) → List (List Char × ValueCheck α)
  | [] => []
  | (key, r) :: fs => (key, check r) :: checks fs

end

end Rules

def Validator.standard : Validator α := fun fs es => do
  return ⟨← Rules.mappingFindings (Rules.requiredKeys fs) (Rules.checks fs) es, es⟩

end

end Immittance
