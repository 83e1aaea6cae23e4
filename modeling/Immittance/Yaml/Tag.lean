import Immittance.Text.Digit

/-!
# Tags

A tag says what a node is. A plain scalar without a tag is what its text looks like: nothing, a truth
value, a whole number, a number, a date, a mark of its own, or else a text.
-/

set_option autoImplicit false

namespace Immittance.Yaml

inductive Tag where
  | null
  | bool
  | int
  | float
  | timestamp
  | text
  | merge
  | value
  | binary
  | ordered
  | pairs
  | set
  | sequence
  | mapping
  | unknown
deriving DecidableEq, Repr

namespace Tag

def standard : List (String × Tag) :=
  [("null", null), ("bool", bool), ("int", int), ("float", float), ("timestamp", timestamp),
   ("str", text), ("merge", merge), ("value", value), ("binary", binary), ("omap", ordered),
   ("pairs", pairs), ("set", set), ("seq", sequence), ("map", mapping)]

def standardStem : List Char := "tag:yaml.org,2002:".toList

def ofText (s : List Char) : Tag :=
  match standard.find? fun t => standardStem ++ t.1.toList == s with
  | some (_, t) => t
  | none => unknown

/-! ## What a plain scalar looks like -/

def isDecimal (c : Char) : Bool := '0' ≤ c && c ≤ '9'

def isDecimalOrLine (c : Char) : Bool := isDecimal c || c == '_'

def dropSign : List Char → List Char
  | '+' :: s => s
  | '-' :: s => s
  | s => s

def isNull (s : List Char) : Bool :=
  ["", "~", "null", "Null", "NULL"].any (·.toList == s)

def isBool (s : List Char) : Bool :=
  ["yes", "Yes", "YES", "no", "No", "NO", "true", "True", "TRUE", "false", "False", "FALSE",
   "on", "On", "ON", "off", "Off", "OFF"].any (·.toList == s)

def sexagesimal (p : List Char → Bool) : List Char → Bool
  | ':' :: a :: b :: s =>
    ('0' ≤ a && a ≤ '5' && isDecimal b && (p s || sexagesimal p s)) ||
      (isDecimal a && (p (b :: s) || sexagesimal p (b :: s)))
  | [':', a] => isDecimal a && p []
  | _ => false

def isInt (s : List Char) : Bool :=
  match dropSign s with
  | '0' :: 'b' :: c :: t => (c :: t).all fun d => d == '0' || d == '1' || d == '_'
  | '0' :: 'x' :: c :: t => (c :: t).all fun d =>
      isDecimalOrLine d || ('a' ≤ d && d ≤ 'f') || ('A' ≤ d && d ≤ 'F')
  | '0' :: t => t.all fun d => ('0' ≤ d && d ≤ '7') || d == '_'
  | c :: t =>
    isDecimal c &&
      (t.all isDecimalOrLine || sexagesimal (·.isEmpty) (t.dropWhile isDecimalOrLine))
  | [] => false

def isExponent : List Char → Bool
  | [] => true
  | e :: sign :: t =>
    (e == 'e' || e == 'E') && (sign == '+' || sign == '-') && !t.isEmpty && t.all isDecimal
  | _ => false

def isFraction (least : Nat) : List Char → Bool
  | '.' :: t =>
    let digits := t.takeWhile isDecimalOrLine
    least ≤ digits.length && (digits.head?.map fun c => least == 0 || isDecimal c).getD true &&
      isExponent (t.dropWhile isDecimalOrLine)
  | _ => false

def isTail : List Char → Bool
  | '.' :: t => t.all isDecimalOrLine
  | _ => false

def isFloat (s : List Char) : Bool :=
  let t := dropSign s
  (match t with
   | c :: r =>
     isDecimal c &&
       (isFraction 0 (r.dropWhile isDecimalOrLine) ||
         sexagesimal isTail (r.dropWhile isDecimalOrLine))
   | [] => false) ||
  isFraction 1 s ||
  [".inf", ".Inf", ".INF"].any (·.toList == t) ||
  [".nan", ".NaN", ".NAN"].any (·.toList == s)

def splitCount? (least most : Nat) (s : List Char) : Option (List Char × List Char) :=
  let digits := (s.take most).takeWhile isDecimal
  if least ≤ digits.length then some (digits, s.drop digits.length) else none

def after? (c : Char) : List Char → Option (List Char)
  | d :: s => if d == c then some s else none
  | [] => none

structure Stamp where
  year : List Char
  month : List Char
  day : List Char
  time : Option (List Char × List Char × List Char)
  fraction : List Char
  zone : List Char
deriving DecidableEq, Repr

def isGap (c : Char) : Bool := c == ' ' || c == '\t'

def dropTimeMark? : List Char → Option (List Char)
  | 'T' :: s => some s
  | 't' :: s => some s
  | c :: s => if isGap c then some (s.dropWhile isGap) else none
  | [] => none

def isZone (s : List Char) : Bool :=
  match s with
  | [] => true
  | ['Z'] => true
  | sign :: t =>
    (sign == '+' || sign == '-') &&
      match splitCount? 1 2 t with
      | none => false
      | some (_, []) => true
      | some (_, ':' :: u) => u.length == 2 && u.all isDecimal
      | some _ => false

def stampTime? (year month day s : List Char) : Option Stamp := do
  let s ← dropTimeMark? s
  let (hour, s) ← splitCount? 1 2 s
  let (minute, s) ← splitCount? 2 2 (← after? ':' s)
  let (second, s) ← splitCount? 2 2 (← after? ':' s)
  let (fraction, s) :=
    match s with
    | '.' :: t => (t.takeWhile isDecimal, t.dropWhile isDecimal)
    | s => ([], s)
  let zone := s.dropWhile isGap
  if isZone zone && (zone ≠ [] || s = []) then
    some ⟨year, month, day, some (hour, minute, second), fraction, zone⟩
  else none

def stamp? (strict : Bool) (s : List Char) : Option Stamp := do
  let (year, s) ← splitCount? 4 4 s
  let (month, s) ← splitCount? 1 2 (← after? '-' s)
  let (day, s) ← splitCount? 1 2 (← after? '-' s)
  if s.isEmpty then
    if strict && (month.length ≠ 2 || day.length ≠ 2) then none
    else some ⟨year, month, day, none, [], []⟩
  else stampTime? year month day s

def ofPlain (s : List Char) : Tag :=
  if isBool s then bool
  else if isFloat s then float
  else if isInt s then int
  else if s = ['<', '<'] then merge
  else if isNull s then null
  else if (stamp? true s).isSome then timestamp
  else if s = ['='] then value
  else text

end Tag

end Immittance.Yaml
