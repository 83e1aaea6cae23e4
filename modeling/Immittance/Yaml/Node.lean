import Immittance.Yaml.Tag
import Immittance.Yaml.Token

/-!
# Nodes

The tokens of a document make a tree of scalars, sequences and mappings, each with its tag. A
reference is replaced by the node it names; inside a collection that is still open it stands for
that collection, which is then put in once, with an empty collection in place of the reference. The
readers have as many rounds left as `fuel` says, which is more than there are tokens.
-/

set_option autoImplicit false

namespace Immittance.Yaml

inductive Node where
  | scalar (tag : Tag) (text : List Char)
  | sequence (tag : Tag) (items : List Node)
  | mapping (tag : Tag) (entries : List (Node × Node))
  /-- The collection with this anchor, inside of itself. -/
  | within (anchor : List Char)

namespace Node

def empty : Node := .scalar .null []

mutual

def fill (anchor : List Char) (m : Node) : Node → Node
  | .scalar t s => .scalar t s
  | .sequence t ns => .sequence t (fillAll anchor m ns)
  | .mapping t es => .mapping t (fillEntries anchor m es)
  | .within a => if a = anchor then m else .within a

def fillAll (anchor : List Char) (m : Node) : List Node → List Node
  | [] => []
  | n :: ns => fill anchor m n :: fillAll anchor m ns

def fillEntries (anchor : List Char) (m : Node) : List (Node × Node) → List (Node × Node)
  | [] => []
  | (k, v) :: es => (fill anchor m k, fill anchor m v) :: fillEntries anchor m es

end

def bare : Node → Node
  | .sequence t _ => .sequence t []
  | .mapping t _ => .mapping t []
  | n => n

def closed (anchor : Option (List Char)) (n : Node) : Node :=
  match anchor with
  | none => n
  | some a => fill a (fill a n.bare n) n

end Node

structure Reader where
  tokens : List Token
  anchors : List (List Char × Node)

namespace Reader

def at? (r : Reader) (marks : List Token) : Bool :=
  match r.tokens with
  | t :: _ => marks.contains t
  | [] => false

def define (r : Reader) (anchor : Option (List Char)) (n : Node) : Except Fault Reader :=
  match anchor with
  | none => .ok r
  | some a =>
    if (r.anchors.lookup a).isSome then malformed
    else .ok { r with anchors := (a, n) :: r.anchors }

def enter (r : Reader) (anchor : Option (List Char)) (tokens : List Token) : Except Fault Reader :=
  { r with tokens := tokens }.define anchor (.within (anchor.getD []))

def leave (r : Reader) (anchor : Option (List Char)) (n : Node) : Node × Reader :=
  let n := n.closed anchor
  match anchor with
  | none => (n, r)
  | some a => (n, { r with anchors := (a, n) :: r.anchors })

end Reader

/-! ## Properties of a node -/

abbrev Handles := List (List Char × List Char)

structure Properties where
  anchor : Option (List Char)
  tag : Option (List Char)

def expandTag (handles : Handles) (handle : Option (List Char)) (suffix : List Char) :
    Except Fault (List Char) :=
  match handle with
  | none => .ok suffix
  | some h =>
    match handles.lookup h with
    | some expansion => .ok (expansion ++ suffix)
    | none => malformed

def properties (handles : Handles) : List Token → Except Fault (Properties × List Token)
  | .anchor a :: .tag h s :: ts => do return (⟨some a, some (← expandTag handles h s)⟩, ts)
  | .tag h s :: .anchor a :: ts => do return (⟨some a, some (← expandTag handles h s)⟩, ts)
  | .anchor a :: ts => .ok (⟨some a, none⟩, ts)
  | .tag h s :: ts => do return (⟨none, some (← expandTag handles h s)⟩, ts)
  | ts => .ok (⟨none, none⟩, ts)

namespace Properties

def isOpen (p : Properties) : Bool := p.tag.isNone || p.tag == some ['!']

def tagOr (p : Properties) (t : Tag) : Tag :=
  if p.isOpen then t else Tag.ofText (p.tag.getD [])

def scalarTag (p : Properties) (s : List Char) (isPlain : Bool) : Tag :=
  p.tagOr (if isPlain || p.tag.isSome then Tag.ofPlain s else .text)

end Properties

/-! ## Collections and their members -/

mutual

/-- A node. Block collections may begin where `block` says so, and entries without indentation of
their own where `indentless` does. -/
def node (handles : Handles) (fuel : Nat) (block indentless : Bool) (r : Reader) :
    Except Fault (Node × Reader) :=
  match fuel with
  | 0 => malformed
  | fuel + 1 =>
    match r.tokens with
    | .reference a :: ts =>
      match r.anchors.lookup a with
      | some n => .ok (n, { r with tokens := ts })
      | none => malformed
    | ts => do
      let (p, ts) ← properties handles ts
      match ts with
      | .scalar s isPlain :: ts =>
        let n := Node.scalar (p.scalarTag s isPlain) s
        return (n, ← { r with tokens := ts }.define p.anchor n)
      | .flowSequence :: ts => do
        let (ns, r) ← flowItems handles fuel true (← r.enter p.anchor ts)
        return r.leave p.anchor (.sequence (p.tagOr .sequence) ns)
      | .flowMapping :: ts => do
        let (es, r) ← flowEntries handles fuel true (← r.enter p.anchor ts)
        return r.leave p.anchor (.mapping (p.tagOr .mapping) es)
      | .blockSequence :: ts => do
        if !block then malformed
        let (ns, r) ← blockItems handles fuel (← r.enter p.anchor ts)
        return r.leave p.anchor (.sequence (p.tagOr .sequence) ns)
      | .blockMapping :: ts => do
        if !block then malformed
        let (es, r) ← blockEntries handles fuel (← r.enter p.anchor ts)
        return r.leave p.anchor (.mapping (p.tagOr .mapping) es)
      | ts => do
        if indentless && { r with tokens := ts }.at? [.entry] then
          let (ns, r) ← indentlessItems handles fuel (← r.enter p.anchor ts)
          return r.leave p.anchor (.sequence (p.tagOr .sequence) ns)
        else if p.anchor.isNone && p.tag.isNone then malformed
        else
          let n := Node.scalar (p.scalarTag [] true) []
          return (n, ← { r with tokens := ts }.define p.anchor n)

def nodeBefore (handles : Handles) (fuel : Nat) (block indentless : Bool) (marks : List Token)
    (r : Reader) : Except Fault (Node × Reader) :=
  match fuel with
  | 0 => malformed
  | fuel + 1 =>
    if r.at? marks then .ok (.empty, r) else node handles fuel block indentless r

def valueBefore (handles : Handles) (fuel : Nat) (block : Bool) (marks : List Token) (r : Reader) :
    Except Fault (Node × Reader) :=
  match fuel with
  | 0 => malformed
  | fuel + 1 =>
    match r.tokens with
    | .value :: ts => nodeBefore handles fuel block block marks { r with tokens := ts }
    | _ => .ok (.empty, r)

def blockItems (handles : Handles) (fuel : Nat) (r : Reader) : Except Fault (List Node × Reader) :=
  match fuel with
  | 0 => malformed
  | fuel + 1 =>
    match r.tokens with
    | .blockEnd :: ts => .ok ([], { r with tokens := ts })
    | .entry :: ts => do
      let (n, r) ← nodeBefore handles fuel true false [.entry, .blockEnd] { r with tokens := ts }
      let (ns, r) ← blockItems handles fuel r
      return (n :: ns, r)
    | _ => malformed

def indentlessItems (handles : Handles) (fuel : Nat) (r : Reader) :
    Except Fault (List Node × Reader) :=
  match fuel with
  | 0 => malformed
  | fuel + 1 =>
    match r.tokens with
    | .entry :: ts => do
      let (n, r) ← nodeBefore handles fuel true false [.entry, .key, .value, .blockEnd]
        { r with tokens := ts }
      let (ns, r) ← indentlessItems handles fuel r
      return (n :: ns, r)
    | _ => .ok ([], r)

def blockEntries (handles : Handles) (fuel : Nat) (r : Reader) :
    Except Fault (List (Node × Node) × Reader) :=
  match fuel with
  | 0 => malformed
  | fuel + 1 =>
    match r.tokens with
    | .blockEnd :: ts => .ok ([], { r with tokens := ts })
    | .key :: ts => do
      let marks := [.key, .value, .blockEnd]
      let (k, r) ← nodeBefore handles fuel true true marks { r with tokens := ts }
      let (v, r) ← valueBefore handles fuel true marks r
      let (es, r) ← blockEntries handles fuel r
      return ((k, v) :: es, r)
    | _ => malformed

def flowItems (handles : Handles) (fuel : Nat) (first : Bool) (r : Reader) :
    Except Fault (List Node × Reader) :=
  match fuel with
  | 0 => malformed
  | fuel + 1 =>
    match r.tokens with
    | .flowSequenceEnd :: ts => .ok ([], { r with tokens := ts })
    | ts => do
      let ts ←
        match first, ts with
        | true, ts => pure ts
        | false, .comma :: ts => pure ts
        | false, _ => malformed
      match ts with
      | .flowSequenceEnd :: ts => return ([], { r with tokens := ts })
      | .key :: ts => do
        let marks := [.value, .comma, .flowSequenceEnd]
        let (k, r) ← nodeBefore handles fuel false false marks { r with tokens := ts }
        let (v, r) ← valueBefore handles fuel false [.comma, .flowSequenceEnd] r
        let (ns, r) ← flowItems handles fuel false r
        return (.mapping .mapping [(k, v)] :: ns, r)
      | ts => do
        let (n, r) ← node handles fuel false false { r with tokens := ts }
        let (ns, r) ← flowItems handles fuel false r
        return (n :: ns, r)

def flowEntries (handles : Handles) (fuel : Nat) (first : Bool) (r : Reader) :
    Except Fault (List (Node × Node) × Reader) :=
  match fuel with
  | 0 => malformed
  | fuel + 1 =>
    match r.tokens with
    | .flowMappingEnd :: ts => .ok ([], { r with tokens := ts })
    | ts => do
      let ts ←
        match first, ts with
        | true, ts => pure ts
        | false, .comma :: ts => pure ts
        | false, _ => malformed
      match ts with
      | .flowMappingEnd :: ts => return ([], { r with tokens := ts })
      | .key :: ts => do
        let marks := [.value, .comma, .flowMappingEnd]
        let (k, r) ← nodeBefore handles fuel false false marks { r with tokens := ts }
        let (v, r) ← valueBefore handles fuel false [.comma, .flowMappingEnd] r
        let (es, r) ← flowEntries handles fuel false r
        return ((k, v) :: es, r)
      | ts => do
        let (k, r) ← node handles fuel false false { r with tokens := ts }
        let (es, r) ← flowEntries handles fuel false r
        return ((k, .empty) :: es, r)

end

/-! ## Documents -/

def standardHandles : Handles := [(['!'], ['!']), (['!', '!'], Tag.standardStem)]

def directives (versioned : Bool) (handles : Handles) :
    List Token → Except Fault (Handles × List Token)
  | .version major :: ts =>
    if versioned || major != 1 then malformed else directives true handles ts
  | .tagHandle h expansion :: ts =>
    if (handles.lookup h).isSome then malformed
    else directives versioned ((h, expansion) :: handles) ts
  | .otherDirective :: ts => directives versioned handles ts
  | ts => .ok (handles ++ standardHandles, ts)

def Token.isDirective : Token → Bool
  | .version _ | .tagHandle _ _ | .otherDirective => true
  | _ => false

def isBlankDocument : List Token → Bool
  | [] => true
  | t :: _ => t.isDirective || t == .documentStart || t == .documentEnd

def document (ts : List Token) : Except Fault (Node × List Token) := do
  let fuel := 4 * ts.length + 8
  match ts with
  | t :: _ =>
    if t.isDirective || t == .documentStart then
      match ← directives false [] ts with
      | (handles, .documentStart :: ts) =>
        if isBlankDocument ts then return (.empty, ts)
        else
          let (n, r) ← node handles fuel true false ⟨ts, []⟩
          return (n, r.tokens)
      | _ => malformed
    else
      let (n, r) ← node standardHandles fuel true false ⟨ts, []⟩
      return (n, r.tokens)
  | [] => return (.empty, [])

def onlyDocument (ts : List Token) : Except Fault Node := do
  let (n, rest) ← document ts
  if (rest.dropWhile (· == .documentEnd)).isEmpty then return n else malformed

end Immittance.Yaml
