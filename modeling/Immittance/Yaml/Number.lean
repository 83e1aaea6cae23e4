import Immittance.Decimal.Numeral
import Immittance.Text.Case
import Immittance.Yaml.Scalar
import Immittance.Yaml.Tag

/-!
# Scalars with a type

The values of scalar texts by the type that their tag asks for. Underscores in numbers are ignored. A
number may be written in base sixty with colons between its places; a whole number may have a mark of
base two or sixteen in front, and counts in base eight behind a zero. In decimal it may not be too long.
-/

set_option autoImplicit false

namespace Immittance.Yaml

open Text

/-! ## Numbers -/

def withoutLines (s : List Char) : List Char := s.filter (· != '_')

def digitIn? (base : Nat) (c : Char) : Option Nat :=
  let value :=
    match digitValue? c with
    | some d => some d
    | none => hexValue? c
  value.filter (· < base)

def dropBaseMark (base : Nat) : List Char → List Char
  | '0' :: c :: s =>
    let mark := if base = 2 then 'b' else if base = 8 then 'o' else 'x'
    if base ≠ 10 ∧ (c = mark ∨ c = mark.toUpper) then s else '0' :: c :: s
  | s => s

def wholeIn (base : Nat) (s : List Char) : Except Fault Int :=
  let (negative, t) := Decimal.splitSign (trim s)
  let t := dropBaseMark base t
  let digits := t.takeWhile fun c => (digitIn? base c).isSome
  if base = 10 ∧ longestWhole < digits.length then .error (.integerTooLong digits.length)
  else if digits.isEmpty || digits.length != t.length then .error (.notInteger base s)
  else
    let n := digits.foldl (fun n c => base * n + (digitIn? base c).getD 0) 0
    .ok (if negative then -n else n)

def colonParts : List Char → List (List Char)
  | [] => [[]]
  | c :: s =>
    match colonParts s with
    | p :: ps => if c = ':' then [] :: p :: ps else (c :: p) :: ps
    | [] => [[c]]

def signed (s : List Char) : Except Fault (Bool × List Char) :=
  if s.isEmpty then .error .emptyNumber else .ok (Decimal.splitSign s)

def unsignedWhole : List Char → Except Fault Int
  | [] => .error .emptyNumber
  | ['0'] => .ok 0
  | '0' :: 'b' :: s => wholeIn 2 s
  | '0' :: 'x' :: s => wholeIn 16 s
  | '0' :: s => wholeIn 8 ('0' :: s)
  | s =>
    match colonParts s with
    | [_] => wholeIn 10 s
    | parts => do return (← parts.mapM (wholeIn 10)).foldl (fun n d => 60 * n + d) 0

def whole (s : List Char) : Except Fault Int := do
  let (negative, s) ← signed (withoutLines s)
  let n ← unsignedWhole s
  return if negative then -n else n

def realPart (s : List Char) : Except Fault Float :=
  match Decimal.readFloat? s with
  | some x => .ok x
  | none => .error (.notFloat s)

def sixties (total : Float) (scale : Nat) : List Float → Except Fault Float
  | [] => .ok total
  | x :: xs =>
    let size := Decimal.nearest scale 0
    if size.isFinite then sixties (total + x * size) (60 * scale) xs else .error .integerTooLarge

def unsignedReal (s : List Char) : Except Fault Float :=
  if s = ['.', 'i', 'n', 'f'] then .ok (1 / 0)
  else if s = ['.', 'n', 'a', 'n'] then .ok (0 / 0)
  else
    match colonParts s with
    | [_] => realPart s
    | parts => do sixties 0 1 (← parts.mapM realPart).reverse

def real (s : List Char) : Except Fault Float := do
  let (negative, s) ← signed (lower (withoutLines s))
  let x ← unsignedReal s
  return if negative then -x else x

/-! ## Other types -/

def truth (s : List Char) : Except Fault Bool :=
  let w := lower s
  if ["yes", "true", "on"].any (·.toList == w) then .ok true
  else if ["no", "false", "off"].any (·.toList == w) then .ok false
  else .error (.notTruth w)

def zoneOffset? (zone : List Char) : Option Int :=
  match zone with
  | [] => none
  | ['Z'] => some 0
  | sign :: s =>
    let hours := digitsValue (s.takeWhile Tag.isDecimal)
    let minutes := digitsValue ((s.dropWhile Tag.isDecimal).drop 1)
    let size : Int := (hours * 60 + minutes) * 60
    some (if sign = '-' then -size else size)

def offsetFault? (offset : Option Int) : Option (List Char) :=
  match offset with
  | some o =>
    if o.natAbs < 86400 then none
    else
      some ("offset must be a timedelta strictly between -timedelta(hours=24) and ".toList ++
        "timedelta(hours=24), not ".toList ++ Value.spanText o ++ ['.'])
  | none => none

def microseconds (fraction : List Char) : Nat :=
  let digits := fraction.take 6
  digitsValue digits * Nat.pow 10 (6 - digits.length)

def Stamp.value (stamp : Tag.Stamp) : Except Fault Value := do
  let check := fun (fault : Option (List Char)) =>
    (match fault with
     | some message => .error (.calendar message)
     | none => .ok () : Except Fault Unit)
  let date : Date :=
    ⟨digitsValue stamp.year, digitsValue stamp.month, digitsValue stamp.day⟩
  let dateFault := (Date.fault? date.year date.month date.day).map String.toList
  match stamp.time with
  | none =>
    check dateFault
    return .date date
  | some (hour, minute, second) =>
    let offset := zoneOffset? stamp.zone
    let (hour, minute, second) := (digitsValue hour, digitsValue minute, digitsValue second)
    check (offsetFault? offset)
    check dateFault
    check ((Moment.fault? hour minute second).map String.toList)
    return .moment ⟨date, hour, minute, second, microseconds stamp.fraction, offset⟩

def timestamp (s : List Char) : Except Fault Value :=
  match Tag.stamp? false s with
  | some stamp => Stamp.value stamp
  | none => .error .notTimestamp

def sixtyFour? (c : Char) : Option Nat :=
  if 'A' ≤ c ∧ c ≤ 'Z' then some (c.toNat - 'A'.toNat)
  else if 'a' ≤ c ∧ c ≤ 'z' then some (c.toNat - 'a'.toNat + 26)
  else if '0' ≤ c ∧ c ≤ '9' then some (c.toNat - '0'.toNat + 52)
  else if c = '+' then some 62
  else if c = '/' then some 63
  else none

/-- Bytes in base sixty-four, `held` being the digits of a byte not yet complete. Other characters
are passed over; the padding that completes a group of four ends the text. -/
def bytesFrom (held : List Nat) (padding : Nat) : List Char → Except Fault (List Nat)
  | [] => if held.isEmpty then .ok [] else malformed
  | c :: s =>
    if c = '=' then
      if 2 ≤ held.length then
        if 4 ≤ held.length + padding + 1 then .ok [] else bytesFrom held (padding + 1) s
      else bytesFrom held padding s
    else
      match sixtyFour? c with
      | none => bytesFrom held padding s
      | some d =>
        match held with
        | [] => bytesFrom [d] 0 s
        | [a] => do return (a * 4 + d / 16) :: (← bytesFrom [a, d] 0 s)
        | [a, b] => do return (b % 16 * 16 + d / 4) :: (← bytesFrom [a, b, d] 0 s)
        | _ :: _ :: e :: _ => do return (e % 4 * 64 + d) :: (← bytesFrom [] 0 s)

def bytes (s : List Char) : Except Fault (List Nat) :=
  if s.all (·.toNat < 128) then bytesFrom [] 0 s else malformed

def scalarValue (t : Tag) (s : List Char) : Except Fault Value :=
  match t with
  | .null => .ok .null
  | .bool => (truth s).map .bool
  | .int => (whole s).map .int
  | .float => (real s).map .float
  | .timestamp => timestamp s
  | .text => .ok (.text s)
  | .binary => (bytes s).map .bytes
  | _ => malformed

end Immittance.Yaml
