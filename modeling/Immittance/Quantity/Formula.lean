import Immittance.Decimal.Numeral
import Immittance.Quantity.Basic
import Immittance.Text.Word

/-!
# Formulas

A formula is made of numbers, names, the signs of arithmetic and parentheses. What stands side by side
is multiplied. Powers bind closer than signs, signs closer than products and quotients, those closer
than sums and differences; powers group from the right, the others from the left. A factor in
parentheses directly behind another belongs to it before anything else.

Signs and marks that mean nothing here are passed over, and a number sign hides the rest of its line.
-/

set_option autoImplicit false

namespace Immittance

open Text

namespace Formula

inductive Sign where
  | plus
  | minus
  | times
  | divide
  | power
deriving DecidableEq, Repr

inductive Lexeme where
  | number (a : Amount)
  | name (s : List Char)
  | sign (s : Sign)
  | opening
  | closing
deriving DecidableEq, Repr

/-! ## Spelling -/

def spellPer : List Char → List Char
  | ' ' :: 'p' :: 'e' :: 'r' :: ' ' :: s => '/' :: spellPer s
  | c :: s => c :: spellPer s
  | [] => []

def joinsBlanks (c : Char) : Bool :=
  isWordChar c || ['.', '-', '+', '*', '\\', '^'].contains c

def spellBlanks (joined : Bool) : List Char → List Char
  | [] => []
  | c :: s =>
    if isBlank c then
      if joined then spellBlanks joined s else c :: spellBlanks false s
    else if joinsBlanks c && (s.head?.map isBlank).getD false then
      c :: ' ' :: spellBlanks true s
    else c :: spellBlanks false s

/-- Whether a letter behind a number begins a word: any but that of an exponent, and that one before
another letter. -/
def beginsWord : List Char → Bool
  | [] => false
  | c :: s =>
    c.isAlpha && c != 'e' && c != 'E' ||
      (c == 'e' || c == 'E' || c == '|') && (s.head?.map Char.isAlpha).getD false

def gluedNumber? (s : List Char) : Option (List Char × List Char) :=
  let whole := s.takeWhile Char.isDigit
  let rest := s.dropWhile Char.isDigit
  if whole.isEmpty then none
  else
    match rest with
    | '.' :: t =>
      let fraction := t.takeWhile Char.isDigit
      let after := t.dropWhile Char.isDigit
      if beginsWord after then some (whole ++ '.' :: fraction, after) else none
    | _ => if beginsWord rest then some (whole, rest) else none

def spellGlued (fuel : Nat) (inWord : Bool) (s : List Char) : List Char :=
  match fuel, s with
  | 0, s => s
  | _, [] => []
  | fuel + 1, c :: t =>
    match if inWord then none else gluedNumber? (c :: t) with
    | some (number, rest) => number ++ '*' :: spellGlued fuel false rest
    | none => c :: spellGlued fuel (isWordChar c) t

def spellGaps : List Char → List Char
  | [] => []
  | c :: s =>
    let rest := s.dropWhile isBlank
    if (isWordChar c || c == '.' || c == ')') && (s.head?.map isBlank).getD false &&
        (rest.head?.map fun d => isWordChar d || d == '(').getD false then
      c :: '*' :: spellGaps rest
    else c :: spellGaps s
termination_by s => s.length
decreasing_by
  · have := length_dropWhile_le isBlank s
    simp; omega
  · simp

def replace (c : Char) (t s : List Char) : List Char := s.flatMap fun d => if d = c then t else [d]

def spell (s : List Char) : List Char :=
  let s := replace ',' [] (replace '%' " percent ".toList s)
  let s := spellBlanks false (spellPer s)
  replace '^' ['*', '*'] (spellGaps (spellGlued s.length false s))

/-! ## Lexemes -/

def splitDigits : List Char → List Char × List Char
  | '_' :: c :: s =>
    if c.isDigit then let r := splitDigits s; (c :: r.1, r.2) else ([], '_' :: c :: s)
  | c :: s =>
    if c.isDigit then let r := splitDigits s; (c :: r.1, r.2) else ([], c :: s)
  | [] => ([], [])

def splitZeros : List Char → List Char × List Char
  | '_' :: '0' :: s => let r := splitZeros s; ('0' :: r.1, r.2)
  | '0' :: s => let r := splitZeros s; ('0' :: r.1, r.2)
  | s => ([], s)

def startsWithDigit (s : List Char) : Bool := (s.head?.map Char.isDigit).getD false

def splitExponent? : List Char → Option (List Char × List Char)
  | c :: s =>
    if c = 'e' ∨ c = 'E' then
      match s with
      | '+' :: t => if startsWithDigit t then
          let r := splitDigits t; some ('e' :: r.1, r.2) else none
      | '-' :: t => if startsWithDigit t then
          let r := splitDigits t; some ('e' :: '-' :: r.1, r.2) else none
      | t => if startsWithDigit t then
          let r := splitDigits t; some ('e' :: r.1, r.2) else none
    else none
  | [] => none

def wholeNumber (digits : List Char) : Amount :=
  if longestWhole < digits.length then .real (Decimal.nearest (digitsValue digits) 0)
  else .whole (digitsValue digits)

def realNumber (s : List Char) : Amount :=
  .real (((Decimal.read? s).map Decimal.toFloat).getD 0)

/-- A number at the front of a text that starts with a digit, or a point and a digit. A whole number
that starts with a zero has no other digits. -/
def splitNumber (s : List Char) : Amount × List Char :=
  let (whole, rest) := splitDigits s
  match rest with
  | '.' :: t =>
    let (fraction, after) := if startsWithDigit t then splitDigits t else ([], t)
    match splitExponent? after with
    | some (e, r) => (realNumber (whole ++ '.' :: fraction ++ e), r)
    | none => (realNumber (whole ++ '.' :: fraction), after)
  | _ =>
    match splitExponent? rest with
    | some (e, r) => (realNumber (whole ++ e), r)
    | none =>
      match s with
      | '0' :: t => (.whole 0, (splitZeros t).2)
      | _ => (wholeNumber whole, rest)

def beginsNumber : List Char → Bool
  | '.' :: s => startsWithDigit s
  | s => startsWithDigit s

def lexemes (fuel : Nat) (s : List Char) : List Lexeme :=
  match fuel, s with
  | 0, _ => []
  | _, [] => []
  | fuel + 1, c :: t =>
    if beginsNumber (c :: t) then
      let (a, rest) := splitNumber (c :: t)
      .number a :: lexemes fuel rest
    else if isWordChar c then
      let word := (c :: t).takeWhile isWordChar
      let rest := (c :: t).dropWhile isWordChar
      if isNameStart c then .name word :: lexemes fuel rest else lexemes fuel rest
    else
      match c, t with
      | '#', t => lexemes fuel (t.dropWhile fun d => d != '\n' && d != '\r')
      | '*', '*' :: t => .sign .power :: lexemes fuel t
      | '*', t => .sign .times :: lexemes fuel t
      | '/', t => .sign .divide :: lexemes fuel t
      | '+', t => .sign .plus :: lexemes fuel t
      | '-', t => .sign .minus :: lexemes fuel t
      | '(', t => .opening :: lexemes fuel t
      | ')', t => .closing :: lexemes fuel t
      | _, t => lexemes fuel t

def openAtEnd (ls : List Lexeme) : Int :=
  ls.foldl (fun n l => if l = .opening then n + 1 else if l = .closing then n - 1 else n) 0

end Formula

/-! ## Formulas -/

inductive Formula where
  | number (a : Amount)
  | name (s : List Char)
  | unary (s : Formula.Sign) (x : Formula)
  | binary (s : Formula.Sign) (x y : Formula)

inductive FormulaFault where
  | incomplete
  | unbalanced
  | unopened
  | lonelySign (s : Formula.Sign)
  | calculation (fault : QuantityFault)

namespace Formula

inductive Context where
  | start
  | parenthesis
  | signed
  | beside
  | after (s : Sign)

def Sign.rank : Sign → Int
  | plus | minus => 0
  | times | divide => 1
  | power => 3

def Context.rank : Context → Int
  | start | parenthesis => -1
  | signed => 2
  | beside => 1
  | after s => s.rank

/-- Reads on behind `left`, up to a sign that binds no closer than the context, to the end, or to the
parenthesis that closes the context. -/
def read (fuel : Nat) (context : Context) (left : Option Formula) (ls : List Lexeme) :
    Except FormulaFault (Formula × List Lexeme) :=
  match fuel with
  | 0 => .error .incomplete
  | fuel + 1 =>
    match ls with
    | [] =>
      match left with
      | some x => .ok (x, [])
      | none => .error .incomplete
    | .closing :: rest =>
      match context, left with
      | .start, _ => .error .unopened
      | _, none => .error .incomplete
      | .parenthesis, some x => .ok (x, rest)
      | _, some x => .ok (x, .closing :: rest)
    | .opening :: rest => do
      let (y, rest) ← read fuel .parenthesis none rest
      match left with
      | some x => read fuel context (some (.binary .times x y)) rest
      | none => read fuel context (some y) rest
    | .sign s :: rest =>
      match left with
      | some x =>
        if s.rank ≤ context.rank && s != .power then .ok (x, .sign s :: rest)
        else do
          let (y, rest) ← read fuel (.after s) none rest
          read fuel context (some (.binary s x y)) rest
      | none => do
        let (y, rest) ← read fuel .signed none rest
        read fuel context (some (.unary s y)) rest
    | .number a :: rest =>
      match left with
      | some x =>
        if Context.beside.rank ≤ context.rank then .ok (x, .number a :: rest)
        else do
          let (y, rest) ← read fuel .beside none (.number a :: rest)
          read fuel context (some (.binary .times x y)) rest
      | none => read fuel context (some (.number a)) rest
    | .name n :: rest =>
      match left with
      | some x =>
        if Context.beside.rank ≤ context.rank then .ok (x, .name n :: rest)
        else do
          let (y, rest) ← read fuel .beside none (.name n :: rest)
          read fuel context (some (.binary .times x y)) rest
      | none => read fuel context (some (.name n)) rest

def ofLexemes (ls : List Lexeme) : Except FormulaFault Formula := do
  if openAtEnd ls ≠ 0 then throw .unbalanced
  let (x, _) ← read (3 * ls.length + 1) .start none ls
  return x

def parse (s : List Char) : Except FormulaFault Formula :=
  let s := spell s
  ofLexemes (lexemes s.length s)

def value : Formula → Except FormulaFault Term
  | .number a => .ok (.plain a)
  | .name n => (Term.ofName n).mapError .calculation
  | .unary s x =>
    match s with
    | .plus => value x
    | .minus => do (← value x).neg.mapError .calculation
    | s => .error (.lonelySign s)
  | .binary s x y => do
    let a ← value x
    let b ← value y
    let result := match s with
      | .plus => a.add b
      | .minus => a.sub b
      | .times => a.mul b
      | .divide => a.div b
      | .power => a.pow b
    result.mapError .calculation

end Formula

end Immittance
