import Immittance.Yaml.Cursor

/-!
# Scalars

A scalar is written plainly, between quotes, or as an indented block. Lines are folded in the first
two forms: one line end is a space, further ones remain. Each reader starts at the first character of
the scalar and gives the text it stands for. The `fuel` of a loop is at least the number of
characters left.
-/

set_option autoImplicit false

namespace Immittance.Yaml

/-! ## Between quotes -/

def escapes : List (Char × Char) :=
  [('0', '\x00'), ('a', '\x07'), ('b', '\x08'), ('t', '\t'), ('\t', '\t'), ('n', '\n'),
   ('v', '\x0b'), ('f', '\x0c'), ('r', '\r'), ('e', '\x1b'), (' ', ' '), ('\x22', '\x22'),
   ('\\', '\\'), ('/', '/'), ('N', '\x85'), ('_', '\u00a0'), ('L', '\u2028'), ('P', '\u2029')]

def codeLength? : Char → Option Nat
  | 'x' => some 2
  | 'u' => some 4
  | 'U' => some 8
  | _ => none

def hexValue? (c : Char) : Option Nat :=
  if '0' ≤ c ∧ c ≤ '9' then some (c.toNat - '0'.toNat)
  else if 'a' ≤ c ∧ c ≤ 'f' then some (c.toNat - 'a'.toNat + 10)
  else if 'A' ≤ c ∧ c ≤ 'F' then some (c.toNat - 'A'.toNat + 10)
  else none

def hexNumber? (s : List Char) : Option Nat :=
  s.foldlM (fun n c => (hexValue? c).map (16 * n + ·)) 0

def quotedBreaks (fuel : Nat) (c : Cursor) : Except Fault (List Char × Cursor) :=
  match fuel with
  | 0 => .ok ([], c)
  | fuel + 1 => do
    if c.atAnyMarker then malformed
    let c := c.skipWhile fun x => x == ' ' || x == '\t'
    match c.lineBreak with
    | ([], c) => return ([], c)
    | (b, c) => do
      let (bs, c) ← quotedBreaks fuel c
      return (b ++ bs, c)

def folded (first others : List Char) : List Char :=
  if first ≠ ['\n'] then first ++ others
  else if others.isEmpty then [' '] else others

def escape (fuel : Nat) (c : Cursor) : Except Fault (List Char × Cursor) :=
  match c.peek with
  | none => malformed
  | some x =>
    match escapes.lookup x with
    | some y => .ok ([y], c.next)
    | none =>
      match codeLength? x with
      | some n =>
        let digits := c.next.rest.take n
        if digits.length < n then malformed
        else
          match hexNumber? digits with
          | none => malformed
          | some code =>
            if 0x110000 ≤ code then .error .characterCode
            else if code.isValidChar then .ok ([Char.ofNat code], c.next.skip n)
            else .error (.notCharacter code)
      | none =>
        if isBreak x then quotedBreaks fuel c.lineBreak.2 else malformed

def quotedText (fuel : Nat) (double : Bool) (c : Cursor) : Except Fault (List Char × Cursor) :=
  match fuel with
  | 0 => malformed
  | fuel + 1 =>
    match c.peek with
    | none => malformed
    | some x =>
      if x == '\x27' && !double then
        if c.peek 1 == some '\x27' then do
          let (s, c) ← quotedText fuel double (c.skip 2)
          return ('\x27' :: s, c)
        else .ok ([], c.next)
      else if x == '\x22' && double then .ok ([], c.next)
      else if x == '\\' && double then do
        let (e, c) ← escape fuel c.next
        let (s, c) ← quotedText fuel double c
        return (e ++ s, c)
      else if x == ' ' || x == '\t' then do
        let (blanks, c) := c.span fun y => y == ' ' || y == '\t'
        match c.peek with
        | none => malformed
        | some y =>
          if isBreak y then quotedText fuel double c
          else do
            let (s, c) ← quotedText fuel double c
            return (blanks ++ s, c)
      else if isBreak x then do
        let (first, c) := c.lineBreak
        let (others, c) ← quotedBreaks fuel c
        let (s, c) ← quotedText fuel double c
        return (folded first others ++ s, c)
      else do
        let (s, c) ← quotedText fuel double c.next
        return (x :: s, c)

def quotedScalar (double : Bool) (c : Cursor) : Except Fault (List Char × Cursor) :=
  quotedText c.rest.length double c.next

/-! ## Plain -/

def flowMarks : List Char := [',', '[', ']', '\x7b', '\x7d']

def plainRun (inFlow : Bool) : List Char → List Char
  | [] => []
  | x :: r =>
    if endsWord (some x) then []
    else if x == ':' && (endsWord r.head? || inFlow && (r.head?.map flowMarks.contains).getD false) then
      []
    else if inFlow && (x == '?' || flowMarks.contains x) then []
    else x :: plainRun inFlow r

def plainBreaks (fuel : Nat) (c : Cursor) : Option (List Char) × Cursor :=
  match fuel with
  | 0 => (some [], c)
  | fuel + 1 =>
    if c.atAnyMarker then (none, c)
    else
      let c := c.skipSpaces
      match c.lineBreak with
      | ([], c) => (some [], c)
      | (b, c) =>
        let (bs, c) := plainBreaks fuel c
        (bs.map (b ++ ·), c)

structure Plain where
  text : List Char
  cursor : Cursor
  pastLine : Bool

def plainGap (c : Cursor) : Option (List Char) × Cursor × Bool :=
  let (spaces, c) := c.span (· == ' ')
  match c.lineBreak with
  | ([], c) => (if spaces.isEmpty then none else some spaces, c, false)
  | (first, c) =>
    let (others, c) := plainBreaks (c.rest.length + 1) c
    (others.map (folded first), c, true)

def plainText (fuel : Nat) (inFlow : Bool) (indent : Int) (gap : List Char) (pastLine : Bool)
    (c : Cursor) : Plain :=
  match fuel with
  | 0 => ⟨[], c, pastLine⟩
  | fuel + 1 =>
    let run := plainRun inFlow c.rest
    if c.peek == some '#' || run.isEmpty then ⟨[], c, pastLine⟩
    else
      let (next, c, broken) := plainGap (c.skip run.length)
      match next with
      | none => ⟨gap ++ run, c, broken⟩
      | some blanks =>
        if c.peek == some '#' || (!inFlow && c.column < indent) then ⟨gap ++ run, c, broken⟩
        else
          let more := plainText fuel inFlow indent blanks broken c
          { more with text := gap ++ run ++ more.text }

def plainScalar (inFlow : Bool) (indent : Int) (c : Cursor) : Plain :=
  plainText (c.rest.length + 1) inFlow indent [] false c

/-! ## Blocks -/

inductive Chomping where
  | strip
  | clip
  | keep
deriving DecidableEq, Repr

def chomping? : Option Char → Option Chomping
  | some '+' => some .keep
  | some '-' => some .strip
  | _ => none

def indentation? : Option Char → Option Nat
  | some x => if '0' ≤ x ∧ x ≤ '9' then some (x.toNat - '0'.toNat) else none
  | none => none

def blockMarks (c : Cursor) : Except Fault (Chomping × Option Nat × Cursor) := do
  let (chomping, indentation, c) :=
    match chomping? c.peek with
    | some ch =>
      match indentation? (c.peek 1) with
      | some n => (ch, some n, c.skip 2)
      | none => (ch, none, c.next)
    | none =>
      match indentation? c.peek with
      | some n =>
        match chomping? (c.peek 1) with
        | some ch => (ch, some n, c.skip 2)
        | none => (Chomping.clip, some n, c.next)
      | none => (Chomping.clip, none, c)
  if indentation = some 0 || !endsItem c.peek then malformed
  return (chomping, indentation, c)

def restOfLine (c : Cursor) : Except Fault Cursor := do
  let c := c.skipSpaces
  let c := if c.peek == some '#' then c.skipWhile (!isBreak ·) else c
  if !endsLine c.peek then malformed
  return c.lineBreak.2

def leadingBreaks (fuel : Nat) (widest : Int) (c : Cursor) : List Char × Int × Cursor :=
  match fuel with
  | 0 => ([], widest, c)
  | fuel + 1 =>
    match c.lineBreak with
    | ([], _) =>
      if c.peek == some ' ' then
        leadingBreaks fuel (max widest c.next.column) c.next
      else ([], widest, c)
    | (b, c) =>
      let (bs, widest, c) := leadingBreaks fuel widest c
      (b ++ bs, widest, c)

def skipIndent (indent : Int) (c : Cursor) : Cursor :=
  c.skip ((c.rest.take (indent - c.column).toNat).takeWhile (· == ' ')).length

def blockBreaks (fuel : Nat) (indent : Int) (c : Cursor) : List Char × Cursor :=
  match fuel with
  | 0 => ([], c)
  | fuel + 1 =>
    let c := skipIndent indent c
    match c.lineBreak with
    | ([], c) => ([], c)
    | (b, c) =>
      let (bs, c) := blockBreaks fuel indent c
      (b ++ bs, c)

def blockLines (fuel : Nat) (fold : Bool) (chomping : Chomping) (indent : Int) (breaks : List Char)
    (c : Cursor) : List Char × Cursor :=
  match fuel with
  | 0 => ([], c)
  | fuel + 1 =>
    if c.column != indent || c.rest.isEmpty then
      (if chomping = .keep then breaks else [], c)
    else
      let startsBlank := c.peek == some ' ' || c.peek == some '\t'
      let (line, c) := c.span (!isBreak ·)
      let (lineEnd, c) := c.lineBreak
      let (more, c) := blockBreaks (c.rest.length + 1) indent c
      if c.column == indent && !c.rest.isEmpty then
        let nextBlank := c.peek == some ' ' || c.peek == some '\t'
        let join :=
          if fold && lineEnd = ['\n'] && !startsBlank && !nextBlank then
            if more.isEmpty then [' '] else []
          else lineEnd
        let (s, c) := blockLines fuel fold chomping indent more c
        (breaks ++ line ++ join ++ s, c)
      else
        let tail :=
          match chomping with
          | .strip => []
          | .clip => lineEnd
          | .keep => lineEnd ++ more
        (breaks ++ line ++ tail, c)

def blockScalar (fold : Bool) (parent : Int) (c : Cursor) : Except Fault (List Char × Cursor) := do
  let (chomping, indentation, c) ← blockMarks c.next
  let c ← restOfLine c
  let least := max 1 (parent + 1)
  let (breaks, indent, c) :=
    match indentation with
    | none =>
      let (breaks, widest, c) := leadingBreaks (c.rest.length + 1) 0 c
      (breaks, max least widest, c)
    | some n =>
      let indent := least + n - 1
      let (breaks, c) := blockBreaks (c.rest.length + 1) indent c
      (breaks, indent, c)
  return blockLines (c.rest.length + 1) fold chomping indent breaks c

end Immittance.Yaml
