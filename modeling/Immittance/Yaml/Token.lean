import Immittance.Text.Digit
import Immittance.Text.Utf8
import Immittance.Yaml.Scalar

/-!
# Tokens

A text is cut into tokens. Indentation opens and closes block collections by tokens of their own. A
key without a mark is known only at the colon behind it: what may become one is remembered by its
place in the sequence of tokens, and the tokens of the key are put in there. It must be on one line
and at most 1024 characters long.
-/

set_option autoImplicit false

namespace Immittance.Yaml

inductive Token where
  | version (major : Nat)
  | tagHandle (handle expansion : List Char)
  | otherDirective
  | documentStart
  | documentEnd
  | blockSequence
  | blockMapping
  | blockEnd
  | flowSequence
  | flowMapping
  | flowSequenceEnd
  | flowMappingEnd
  | entry
  | comma
  | key
  | value
  | reference (name : List Char)
  | anchor (name : List Char)
  | tag (handle : Option (List Char)) (suffix : List Char)
  | scalar (text : List Char) (isPlain : Bool)
deriving DecidableEq, Repr

structure KeyPlace where
  token : Nat
  required : Bool
  index : Nat
  line : Nat
  column : Int

structure Lexer where
  cursor : Cursor
  tokens : Array Token
  flow : Nat
  indent : Int
  indents : List Int
  allowKey : Bool
  keys : List (Nat × KeyPlace)

namespace Lexer

def start (s : List Char) : Lexer := ⟨Cursor.start s, #[], 0, -1, [], true, []⟩

def push (l : Lexer) (t : Token) : Lexer := { l with tokens := l.tokens.push t }

def insertAt (l : Lexer) (place : Nat) (t : Token) : Lexer :=
  { l with tokens := (l.tokens.toList.insertIdx place t).toArray }

def inBlock (l : Lexer) : Bool := l.flow == 0

def mark (l : Lexer) (n : Nat) (t : Token) : Lexer :=
  { l with cursor := l.cursor.skip n, tokens := l.tokens.push t }

def allow (l : Lexer) (b : Bool) : Lexer := { l with allowKey := b }

/-! ## Indentation -/

def closeBlocks (column : Int) (indent : Int) (tokens : Array Token) :
    List Int → Int × List Int × Array Token
  | [] => (indent, [], tokens)
  | outer :: rest =>
    if column < indent then closeBlocks column outer (tokens.push .blockEnd) rest
    else (indent, outer :: rest, tokens)

def unwind (l : Lexer) (column : Int) : Lexer :=
  if l.inBlock then
    let (indent, indents, tokens) := closeBlocks column l.indent l.tokens l.indents
    { l with indent := indent, indents := indents, tokens := tokens }
  else l

def openBlock (l : Lexer) (column : Int) : Lexer × Bool :=
  if l.indent < column then ({ l with indent := column, indents := l.indent :: l.indents }, true)
  else (l, false)

/-! ## Possible keys -/

def forgetKey (l : Lexer) : Except Fault Lexer :=
  match l.keys.lookup l.flow with
  | none => .ok l
  | some k =>
    if k.required then malformed
    else .ok { l with keys := l.keys.filter (·.1 != l.flow) }

def forgetStale (l : Lexer) : Except Fault Lexer :=
  let isStale := fun (k : KeyPlace) =>
    k.line != l.cursor.line || 1024 < l.cursor.index - k.index
  if l.keys.any fun k => isStale k.2 && k.2.required then malformed
  else .ok { l with keys := l.keys.filter fun k => !isStale k.2 }

def rememberKey (l : Lexer) : Except Fault Lexer := do
  if l.allowKey then
    let required := l.inBlock && l.indent == l.cursor.column
    let l ← l.forgetKey
    let c := l.cursor
    return { l with keys := (l.flow, ⟨l.tokens.size, required, c.index, c.line, c.column⟩) :: l.keys }
  else return l

/-! ## Between tokens -/

def skipToToken (fuel : Nat) (l : Lexer) : Lexer :=
  match fuel with
  | 0 => l
  | fuel + 1 =>
    let c := l.cursor.skipSpaces
    let c := if c.peek == some '#' then c.skipWhile (!isBreak ·) else c
    match c.lineBreak with
    | ([], c) => { l with cursor := c }
    | (_, c) => skipToToken fuel { l with cursor := c, allowKey := l.allowKey || l.inBlock }

/-! ## Names, tags and directives -/

def isNameChar (c : Char) : Bool :=
  ('0' ≤ c && c ≤ '9') || ('A' ≤ c && c ≤ 'Z') || ('a' ≤ c && c ≤ 'z') || c == '-' || c == '_'

def anchorName (c : Cursor) : Except Fault (List Char × Cursor) := do
  let (name, c) := c.next.span isNameChar
  let ends := match c.peek with
    | none => true
    | some x => endsWord (some x) || ['?', ':', ',', ']', '\x7d', '%', '@', '\x60'].contains x
  if name.isEmpty || !ends then malformed
  return (name, c)

def isUriChar (c : Char) : Bool :=
  isNameChar c || ";/?:@&=+$,.!~*'()[]".toList.contains c

def uriEscapes (fuel : Nat) (c : Cursor) : Except Fault (List Nat × Cursor) :=
  match fuel with
  | 0 => .ok ([], c)
  | fuel + 1 =>
    if c.peek == some '%' then
      let digits := c.next.rest.take 2
      match if digits.length = 2 then hexNumber? digits else none with
      | none => malformed
      | some b => do
        let (bs, c) ← uriEscapes fuel (c.skip 3)
        return (b :: bs, c)
    else .ok ([], c)

def uriFrom (fuel : Nat) (c : Cursor) : Except Fault (List Char × Cursor) :=
  match fuel with
  | 0 => .ok ([], c)
  | fuel + 1 =>
    if c.peek == some '%' then do
      let (bytes, c) ← uriEscapes fuel c
      match Text.decodeUtf8 bytes with
      | .error _ => malformed
      | .ok s =>
        let (rest, c) ← uriFrom fuel c
        return (s ++ rest, c)
    else
      match c.span isUriChar with
      | ([], c) => .ok ([], c)
      | (s, c) => do
        let (rest, c) ← uriFrom fuel c
        return (s ++ rest, c)

def uri (c : Cursor) : Except Fault (List Char × Cursor) := do
  if !(c.peek == some '%' || (c.peek.map isUriChar).getD false) then malformed
  uriFrom (c.rest.length + 1) c

def handle (c : Cursor) : Except Fault (List Char × Cursor) := do
  if c.peek != some '!' then malformed
  if c.peek 1 == some ' ' then return (['!'], c.next)
  let (name, c) := c.next.span isNameChar
  if c.peek == some '!' then return ('!' :: name ++ ['!'], c.next)
  else if name.isEmpty then malformed
  else malformed

def hasHandle : List Char → Bool
  | [] => false
  | c :: s => if endsItem (some c) then false else c == '!' || hasHandle s

def tag (c : Cursor) : Except Fault (Token × Cursor) := do
  let (t, c) ←
    if c.peek 1 == some '<' then do
      let (suffix, c) ← uri (c.skip 2)
      if c.peek != some '>' then malformed
      pure (Token.tag none suffix, c.next)
    else if endsWord (c.peek 1) then pure (Token.tag none ['!'], c.next)
    else if hasHandle (c.rest.drop 1) then do
      let (h, c) ← handle c
      let (suffix, c) ← uri c
      pure (Token.tag (some h) suffix, c)
    else do
      let (suffix, c) ← uri c.next
      pure (Token.tag (some ['!']) suffix, c)
  if !endsItem c.peek then malformed
  return (t, c)

def number (c : Cursor) : Except Fault (Nat × Cursor) := do
  let (digits, c) := c.span fun x => '0' ≤ x && x ≤ '9'
  if digits.isEmpty then malformed
  return (Text.digitsValue digits, c)

def versionDirective (c : Cursor) : Except Fault (Token × Cursor) := do
  let (major, c) ← number c.skipSpaces
  if c.peek != some '.' then malformed
  let (_, c) ← number c.next
  if !endsItem c.peek then malformed
  return (.version major, c)

def tagDirective (c : Cursor) : Except Fault (Token × Cursor) := do
  let (h, c) ← handle c.skipSpaces
  if c.peek != some ' ' then malformed
  let (expansion, c) ← uri c.skipSpaces
  if !endsItem c.peek then malformed
  return (.tagHandle h expansion, c)

def directive (c : Cursor) : Except Fault (Token × Cursor) := do
  let (name, c) := c.next.span isNameChar
  if name.isEmpty || !endsItem c.peek then malformed
  let (t, c) ←
    if name = "YAML".toList then versionDirective c
    else if name = "TAG".toList then tagDirective c
    else pure (Token.otherDirective, c.skipWhile (!isBreak ·))
  return (t, ← restOfLine c)

/-! ## One token -/

def outside (l : Lexer) (f : Cursor → Except Fault (Token × Cursor)) : Except Fault Lexer := do
  let l ← (l.unwind (-1)).forgetKey
  let (t, c) ← f l.cursor
  return { l with cursor := c, tokens := l.tokens.push t, allowKey := false }

def openFlow (l : Lexer) (t : Token) : Except Fault Lexer := do
  let l ← l.rememberKey
  return { l.mark 1 t with flow := l.flow + 1, allowKey := true }

def closeFlow (l : Lexer) (t : Token) : Except Fault Lexer := do
  let l ← l.forgetKey
  match l.flow with
  | 0 => malformed
  | n + 1 => return { l.mark 1 t with flow := n, allowKey := false }

def comma (l : Lexer) : Except Fault Lexer := do
  return ((← l.forgetKey).mark 1 .comma).allow true

def blockEntry (l : Lexer) : Except Fault Lexer := do
  let l ←
    if l.inBlock then
      if !l.allowKey then malformed
      else
        let (l, opened) := l.openBlock l.cursor.column
        pure (if opened then l.push .blockSequence else l)
    else pure l
  return ((← l.forgetKey).mark 1 .entry).allow true

def openMapping (l : Lexer) : Except Fault Lexer :=
  if l.inBlock then
    if !l.allowKey then malformed
    else
      let (l, opened) := l.openBlock l.cursor.column
      .ok (if opened then l.push .blockMapping else l)
  else .ok l

def explicitKey (l : Lexer) : Except Fault Lexer := do
  let l ← l.openMapping
  return ((← l.forgetKey).mark 1 .key).allow l.inBlock

def valueMark (l : Lexer) : Except Fault Lexer := do
  match l.keys.lookup l.flow with
  | some k =>
    let l := { l with keys := l.keys.filter (·.1 != l.flow) }
    let l := l.insertAt k.token .key
    let l :=
      if l.inBlock then
        let (l, opened) := l.openBlock k.column
        if opened then l.insertAt k.token .blockMapping else l
      else l
    return (l.mark 1 .value).allow false
  | none =>
    let l ← l.openMapping
    return ((← l.forgetKey).mark 1 .value).allow l.inBlock

def content (l : Lexer) (f : Cursor → Except Fault (Token × Cursor)) : Except Fault Lexer := do
  let l ← l.rememberKey
  let (t, c) ← f l.cursor
  return { l with cursor := c, tokens := l.tokens.push t, allowKey := false }

def block (l : Lexer) (fold : Bool) : Except Fault Lexer := do
  let l ← (l.allow true).forgetKey
  let (s, c) ← blockScalar fold l.indent l.cursor
  return { l with cursor := c, tokens := l.tokens.push (.scalar s false) }

def plain (l : Lexer) : Except Fault Lexer := do
  let l ← l.rememberKey
  let p := plainScalar (!l.inBlock) (l.indent + 1) l.cursor
  return { l with cursor := p.cursor, tokens := l.tokens.push (.scalar p.text true),
                  allowKey := p.pastLine }

def indicators : List Char := "-?:,[]\x7b\x7d#&*!|>'\"%@".toList ++ ['\x60']

def beginsPlain (l : Lexer) (x : Char) : Bool :=
  !(endsWord (some x) || indicators.contains x) ||
    (!endsWord (l.cursor.peek 1) && (x == '-' || (l.inBlock && (x == '?' || x == ':'))))

def token (l : Lexer) (x : Char) : Except Fault Lexer :=
  let c := l.cursor
  let blankNext := endsWord (c.peek 1)
  if x == '%' && c.column == 0 then l.outside directive
  else if c.column == 0 && c.atMarker '-' then
    l.outside fun c => .ok (.documentStart, c.skip 3)
  else if c.column == 0 && c.atMarker '.' then
    l.outside fun c => .ok (.documentEnd, c.skip 3)
  else if x == '[' then l.openFlow .flowSequence
  else if x == '\x7b' then l.openFlow .flowMapping
  else if x == ']' then l.closeFlow .flowSequenceEnd
  else if x == '\x7d' then l.closeFlow .flowMappingEnd
  else if x == ',' then l.comma
  else if x == '-' && blankNext then l.blockEntry
  else if x == '?' && (!l.inBlock || blankNext) then l.explicitKey
  else if x == ':' && (!l.inBlock || blankNext) then l.valueMark
  else if x == '*' then
    l.content fun c => do let (n, c) ← anchorName c; return (.reference n, c)
  else if x == '&' then
    l.content fun c => do let (n, c) ← anchorName c; return (.anchor n, c)
  else if x == '!' then l.content tag
  else if x == '|' && l.inBlock then l.block false
  else if x == '>' && l.inBlock then l.block true
  else if x == '\x27' then
    l.content fun c => do let (s, c) ← quotedScalar false c; return (.scalar s false, c)
  else if x == '\x22' then
    l.content fun c => do let (s, c) ← quotedScalar true c; return (.scalar s false, c)
  else if l.beginsPlain x then l.plain
  else malformed

def run (fuel : Nat) (l : Lexer) : Except Fault (List Token) :=
  match fuel with
  | 0 => malformed
  | fuel + 1 => do
    let l := l.skipToToken (l.cursor.rest.length + 1)
    let l ← l.forgetStale
    let l := l.unwind l.cursor.column
    match l.cursor.peek with
    | none => return ((← (l.unwind (-1)).forgetKey).tokens).toList
    | some x => run fuel (← l.token x)

end Lexer

def tokens (s : List Char) : Except Fault (List Token) :=
  let l := Lexer.start s
  let l := if s.head? = some '\ufeff' then { l with cursor := l.cursor.next } else l
  l.run (s.length + 2)

end Immittance.Yaml
