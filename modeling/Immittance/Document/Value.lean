import Immittance.Decimal.Style
import Immittance.Document.Calendar
import Immittance.Raised
import Immittance.Text.Digit
import Immittance.Text.Quoted

/-!
# Document values

The values that a document can hold: nothing, truth values, numbers, texts, bytes, dates and moments,
and lists, lists of pairs, sets and mappings of them. A mapping keeps its entries in the order in which
their keys first appeared.

Numbers of every kind are equal when they are the same number, and a truth value counts as zero or
one. Collections that can grow are no keys. A whole number of too many digits cannot be written.
-/

set_option autoImplicit false

namespace Immittance

inductive Value (α : Type := Char) where
  | null
  | bool (b : Bool)
  | int (n : Int)
  | float (x : Float)
  | text (s : List α)
  | bytes (bs : List Nat)
  | date (d : Date)
  | moment (m : Moment)
  | list (vs : List (Value α))
  | pairs (es : List (Value α × Value α))
  | set (vs : List (Value α))
  | map (entries : List (Value α × Value α))

namespace Value

open Letter

variable {α : Type}

instance : Inhabited (Value α) := ⟨.null⟩

def typeName : Value α → String
  | null => "NoneType"
  | bool _ => "bool"
  | int _ => "int"
  | float _ => "float"
  | text _ => "str"
  | bytes _ => "bytes"
  | date _ => "datetime.date"
  | moment _ => "datetime.datetime"
  | list _ | pairs _ => "list"
  | set _ => "set"
  | map _ => "dict"

/-! ## How values are written -/

def intText (n : Int) : List Char := (toString n).toList

def boolText (b : Bool) : List Char := (if b then "True" else "False").toList

def byteText (quote : Char) (b : Nat) : List Char :=
  let c := Char.ofNat b
  if c = '\\' ∨ c = quote then ['\\', c]
  else if c = '\t' then ['\\', 't']
  else if c = '\n' then ['\\', 'n']
  else if c = '\r' then ['\\', 'r']
  else if 0x20 ≤ b ∧ b < 0x7f then [c]
  else '\\' :: 'x' :: Text.hexDigits 2 b

def bytesText (bs : List Nat) : List Char :=
  let q := Text.quoteFor (bs.map Char.ofNat)
  'b' :: q :: bs.flatMap (byteText q) ++ [q]

section
variable [Letter α]

def commaSeparated (items : List (List α)) : List α := (spell [',', ' ']).intercalate items

def enclosed (opening closing : Char) (s : List α) : List α := ofChar opening :: s ++ [ofChar closing]

def wholeText (n : Int) : Except (Raised α) (List α) :=
  if Text.longestWhole < digitCount n.natAbs then
    .error (.ofValue ("Exceeds the limit (4300 digits) for integer string conversion; " ++
      "use sys.set_int_max_str_digits() to increase the limit"))
  else .ok (spell (intText n))

end

def spanText (seconds : Int) : List Char :=
  let days := seconds.fdiv 86400
  let rest := seconds.fmod 86400
  let items :=
    (if days = 0 then [] else ["days=".toList ++ intText days]) ++
    (if rest = 0 then [] else ["seconds=".toList ++ intText rest])
  "datetime.timedelta(".toList ++ (if items.isEmpty then ['0'] else commaSeparated items) ++ [')']

def zoneText (offset : Int) : List Char :=
  if offset = 0 then "datetime.timezone.utc".toList
  else "datetime.timezone(".toList ++ spanText offset ++ [')']

def dateText (d : Date) : List Char :=
  "datetime.date(".toList ++ commaSeparated (d.fields.map fun n : Nat => intText n) ++ [')']

def momentText (m : Moment) : List Char :=
  let zone :=
    match m.offset with
    | none => []
    | some o => ["tzinfo=".toList ++ zoneText o]
  "datetime.datetime(".toList ++
    commaSeparated ((m.fields.map fun n : Nat => intText n) ++ zone) ++ [')']

section
variable [Letter α]

mutual

def shown : Value α → Except (Raised α) (List α)
  | null => .ok (word "None")
  | bool b => .ok (spell (boolText b))
  | int n => wholeText n
  | float x => .ok (spell (shortestText x))
  | text s => .ok (Text.quoted s)
  | bytes bs => .ok (spell (bytesText bs))
  | date d => .ok (spell (dateText d))
  | moment m => .ok (spell (momentText m))
  | list vs => do return enclosed '[' ']' (commaSeparated (← shownAll vs))
  | pairs es => do return enclosed '[' ']' (commaSeparated (← shownPairs es))
  | set vs => do
    let items ← shownAll vs
    return if items.isEmpty then word "set()" else enclosed '\x7b' '\x7d' (commaSeparated items)
  | map es => do return enclosed '\x7b' '\x7d' (commaSeparated (← shownEntries es))

def shownAll : List (Value α) → Except (Raised α) (List (List α))
  | [] => .ok []
  | v :: vs => do
    let s ← shown v
    return s :: (← shownAll vs)

def shownPairs : List (Value α × Value α) → Except (Raised α) (List (List α))
  | [] => .ok []
  | (a, b) :: es => do
    let s ← shown a
    let t ← shown b
    return enclosed '(' ')' (commaSeparated [s, t]) :: (← shownPairs es)

def shownEntries : List (Value α × Value α) → Except (Raised α) (List (List α))
  | [] => .ok []
  | (k, v) :: es => do
    let s ← shown k
    let t ← shown v
    return (s ++ spell [':', ' '] ++ t) :: (← shownEntries es)

end

def plain : Value α → Except (Raised α) (List α)
  | text s => .ok s
  | date d => .ok (spell d.text)
  | moment m => .ok (spell m.text)
  | v => v.shown

end

/-! ## Numbers -/

/-- A number as a fraction: its numerator with a sign and a power of two to multiply with. -/
def number? : Value α → Option (Int × Int)
  | bool b => some (if b then 1 else 0, 0)
  | int n => some (n, 0)
  | float x =>
    match Binary.ofFloat x with
    | .finite negative m e => some (if negative then -(m : Int) else m, e)
    | _ => none
  | _ => none

def isNumber : Value α → Bool
  | bool _ | int _ | float _ => true
  | _ => false

def compareFinite (a b : Int × Int) : Ordering :=
  let low := min a.2 b.2
  compare (a.1 * Int.pow 2 (a.2 - low).toNat) (b.1 * Int.pow 2 (b.2 - low).toNat)

def compareNumbers (a b : Value α) : Option Ordering :=
  match a.number?, b.number? with
  | some x, some y => some (compareFinite x y)
  | none, some _ =>
    match a with
    | float x => if x.isNaN then none else some (if 0 < x then .gt else .lt)
    | _ => none
  | some _, none =>
    match b with
    | float y => if y.isNaN then none else some (if 0 < y then .lt else .gt)
    | _ => none
  | none, none =>
    match a, b with
    | float x, float y =>
      if x < y then some .lt else if y < x then some .gt else if x == y then some .eq else none
    | _, _ => none

def isNaN : Value α → Bool
  | float x => x.isNaN
  | _ => false

/-! ## Keys and their order -/

section
variable [Letter α]

/-- Equality of values that can be keys. As a key, what is no number is equal to itself. -/
def same (a b : Value α) : Bool :=
  if a.isNumber && b.isNumber then compareNumbers a b == some .eq || (a.isNaN && b.isNaN)
  else
    match a, b with
    | null, null => true
    | text s, text t => Letter.same s t
    | bytes s, bytes t => s == t
    | date d, date e => d == e
    | moment m, moment n => m.offset.isSome == n.offset.isSome && m.instant == n.instant
    | _, _ => false

def notKey? : Value α → Option (Raised α)
  | list _ | pairs _ => some (.ofType "unhashable type: 'list'")
  | set _ => some (.ofType "unhashable type: 'set'")
  | map _ => some (.ofType "unhashable type: 'dict'")
  | _ => none

def before (a b : Value α) : Except (Raised α) Bool :=
  if a.isNumber && b.isNumber then .ok (compareNumbers a b == some .lt)
  else
    match a, b with
    | text s, text t => .ok (Letter.before s t)
    | bytes s, bytes t => .ok (s < t)
    | date d, date e => .ok (d.dayNumber < e.dayNumber)
    | moment m, moment n =>
      if m.offset.isSome == n.offset.isSome then .ok (m.instant < n.instant)
      else .error (.ofType "can't compare offset-naive and offset-aware datetimes")
    | date _, moment _ | moment _, date _ =>
      .error (.ofType "can't compare datetime.datetime to datetime.date")
    | a, b =>
      .error (.ofType ("'<' not supported between instances of '" ++ a.typeName ++ "' and '" ++
        b.typeName ++ "'"))

def get? (key : List α) : List (Value α × Value α) → Option (Value α)
  | [] => none
  | (k, v) :: es => if k.same (.text key) then some v else get? key es

def insert (es : List (Value α × Value α)) (key v : Value α) : List (Value α × Value α) :=
  if es.any fun e => e.1.same key then
    es.map fun e => if e.1.same key then (e.1, v) else e
  else es ++ [(key, v)]

end

end Value

end Immittance
