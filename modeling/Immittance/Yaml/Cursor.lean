import Immittance.Yaml.Fault

/-!
# Reading a YAML text character by character

A text is admitted when all its characters are allowed; its line ends are made equal. A cursor is a
place in the text: what is left, how much was read, and line and column. A byte order mark takes no
column.
-/

set_option autoImplicit false

namespace Immittance.Yaml

def isBreak (c : Char) : Bool :=
  c == '\n' || c == '\x85' || c == '\u2028' || c == '\u2029'

def isAllowed (c : Char) : Bool :=
  let n := c.toNat
  c == '\t' || c == '\n' || c == '\r' || (0x20 ≤ n && n ≤ 0x7e) || n == 0x85 ||
    (0xa0 ≤ n && n ≤ 0xfffd) || 0x10000 ≤ n

def equalLineEnds : List Char → List Char
  | '\r' :: '\n' :: s => '\n' :: equalLineEnds s
  | '\r' :: s => '\n' :: equalLineEnds s
  | c :: s => c :: equalLineEnds s
  | [] => []

def admit? (s : List Char) : Option (List Char) :=
  let s := equalLineEnds s
  if s.all isAllowed then some s else none

/-! ## Classes of what comes next, the end of the text included -/

def endsLine : Option Char → Bool
  | none => true
  | some c => isBreak c

def endsWord : Option Char → Bool
  | none => true
  | some c => isBreak c || c == ' ' || c == '\t'

def endsItem : Option Char → Bool
  | none => true
  | some c => isBreak c || c == ' '

structure Cursor where
  rest : List Char
  index : Nat
  line : Nat
  column : Int

namespace Cursor

def start (s : List Char) : Cursor := ⟨s, 0, 0, 0⟩

def peek (c : Cursor) (k : Nat := 0) : Option Char := c.rest[k]?

def next (c : Cursor) : Cursor :=
  match c.rest with
  | [] => c
  | x :: r =>
    if isBreak x then ⟨r, c.index + 1, c.line + 1, 0⟩
    else if x == '\ufeff' then { c with rest := r, index := c.index + 1 }
    else { c with rest := r, index := c.index + 1, column := c.column + 1 }

def skip (c : Cursor) : Nat → Cursor
  | 0 => c
  | n + 1 => c.next.skip n

def span (c : Cursor) (p : Char → Bool) : List Char × Cursor :=
  let s := c.rest.takeWhile p
  (s, c.skip s.length)

def skipWhile (c : Cursor) (p : Char → Bool) : Cursor := (c.span p).2

def skipSpaces (c : Cursor) : Cursor := c.skipWhile (· == ' ')

def lineBreak (c : Cursor) : List Char × Cursor :=
  match c.rest with
  | x :: _ =>
    if x == '\n' || x == '\x85' then (['\n'], c.next)
    else if isBreak x then ([x], c.next)
    else ([], c)
  | [] => ([], c)

def atMarker (x : Char) (c : Cursor) : Bool :=
  match c.rest with
  | a :: b :: d :: r => a == x && b == x && d == x && endsWord r.head?
  | _ => false

def atAnyMarker (c : Cursor) : Bool := c.atMarker '-' || c.atMarker '.'

end Cursor

def malformed {α : Type} : Except Fault α := .error .malformed

end Immittance.Yaml
