import Immittance.Circuit
import Immittance.Expression.Issue
import Immittance.Text.Blank
import Immittance.Text.Case

/-!
# The outermost shape of an expression

A text without an opening parenthesis is a token. Any other is a group: a name that begins with a
wiring, in any case, and a body between the first parenthesis and its match, with blanks only behind
it. The body is cut at the commas outside of all parentheses; a blank body has no members and a comma
at the end begins none.
-/

set_option autoImplicit false

namespace Immittance

open Text

def Wiring.ofName? (name : List Char) : Option Wiring :=
  if Wiring.series.word.isPrefixOf name then some .series
  else if Wiring.parallel.word.isPrefixOf name then some .parallel
  else none

namespace Expression

def nesting (c : Char) : Int :=
  if c = '(' then 1 else if c = ')' then -1 else 0

def pieces (depth : Int) : List Char → List Char × List (List Char)
  | [] => ([], [])
  | c :: s =>
    if c = ',' ∧ depth = 0 then
      let r := pieces depth s
      ([], r.1 :: r.2)
    else
      let r := pieces (depth + nesting c) s
      (c :: r.1, r.2)

def dropEmptyLast : List (List Char) → List (List Char)
  | [] => []
  | [p] => if p.isEmpty then [] else [p]
  | p :: q :: ps => p :: dropEmptyLast (q :: ps)

def splitTopLevel (s : List Char) : List (List Char) :=
  if (trim s).isEmpty then []
  else
    let r := pieces 0 s
    (dropEmptyLast (r.1 :: r.2)).map trim

def splitClose (depth : Nat) : List Char → Option (List Char × List Char)
  | [] => none
  | c :: s =>
    if c = ')' then
      match depth with
      | 0 => some ([], s)
      | d + 1 => (splitClose d s).map fun r => (c :: r.1, r.2)
    else
      (splitClose (if c = '(' then depth + 1 else depth) s).map fun r => (c :: r.1, r.2)

inductive Shape where
  | token (text : List Char)
  | group (wiring : Wiring) (members : List (List Char))
deriving DecidableEq, Repr

namespace Shape

def ofTrimmed (s : List Char) : Except ParseError Shape :=
  match s.dropWhile (· != '(') with
  | [] => .ok (.token s)
  | _ :: after =>
    let name := lower (trim (s.takeWhile (· != '(')))
    match splitClose 0 after with
    | none => .error (Issue.groupUnmatchedParen.error s [])
    | some (body, rest) =>
      let trailing := trim rest
      if !trailing.isEmpty then
        .error (Issue.groupTrailingChars.error s [("trailing", trailing)])
      else
        match Wiring.ofName? name with
        | none => .error (Issue.groupUnknownConnection.error s [("name", name)])
        | some w => .ok (.group w (splitTopLevel body))

def of (text : List Char) : Except ParseError Shape := ofTrimmed (trim text)

end Shape

theorem length_pieces (depth : Int) (s : List Char) :
    (pieces depth s).1.length ≤ s.length ∧
      ∀ p ∈ (pieces depth s).2, p.length ≤ s.length := by
  induction s generalizing depth with
  | nil => simp [pieces]
  | cons c s ih =>
    by_cases h : c = ',' ∧ depth = 0
    · have k := ih depth
      simp [pieces, h] at *
      refine ⟨by omega, fun p hp => ?_⟩
      have := k.2 p hp
      omega
    · have k := ih (depth + nesting c)
      simp only [pieces, h, if_false, List.length_cons]
      refine ⟨by omega, fun p hp => ?_⟩
      have := k.2 p hp
      omega

theorem mem_of_mem_dropEmptyLast {p : List Char} {ps : List (List Char)}
    (h : p ∈ dropEmptyLast ps) : p ∈ ps := by
  induction ps with
  | nil => simp [dropEmptyLast] at h
  | cons q ps ih =>
    cases ps with
    | nil =>
      by_cases e : q.isEmpty
      · simp [dropEmptyLast, e] at h
      · simpa [dropEmptyLast, e] using h
    | cons r rs =>
      simp [dropEmptyLast] at h
      rcases h with h | h
      · simp [h]
      · exact List.mem_cons_of_mem _ (ih h)

/-- Members are no longer than the body they come from. -/
theorem length_of_mem_splitTopLevel {m s : List Char} (h : m ∈ splitTopLevel s) :
    m.length ≤ s.length := by
  unfold splitTopLevel at h
  split at h
  · simp at h
  · obtain ⟨p, hp, rfl⟩ := List.mem_map.1 h
    have hl := length_pieces 0 s
    have hm := mem_of_mem_dropEmptyLast hp
    have ht := length_trim_le p
    rcases List.mem_cons.1 hm with e | e
    · subst e; omega
    · have := hl.2 p e; omega

theorem length_splitClose {depth : Nat} {s body rest : List Char}
    (h : splitClose depth s = some (body, rest)) : body.length < s.length := by
  induction s generalizing depth body rest with
  | nil => simp [splitClose] at h
  | cons c s ih =>
    unfold splitClose at h
    split at h
    · split at h
      · simp at h
        obtain ⟨rfl, _⟩ := h
        simp
      · simp at h
        obtain ⟨b, hb, rfl⟩ := h
        have := ih hb
        simpa using this
    · simp at h
      obtain ⟨b, hb, rfl⟩ := h
      have := ih hb
      simpa using this

/-- Members are shorter than the expression they come from. -/
theorem Shape.length_lt {s m : List Char} {w : Wiring} {ms : List (List Char)}
    (h : Shape.of s = .ok (.group w ms)) (hm : m ∈ ms) : m.length < s.length := by
  have hs := length_trim_le s
  unfold Shape.of Shape.ofTrimmed at h
  split at h
  · simp at h
  · rename_i c after ha
    have hl := length_dropWhile_lt ha
    split at h
    · simp at h
    · rename_i body rest hc
      dsimp only at h
      split at h
      · simp at h
      · split at h
        · simp at h
        · simp at h
          obtain ⟨_, rfl⟩ := h
          have h1 := length_of_mem_splitTopLevel hm
          have h2 := length_splitClose hc
          omega

end Expression

end Immittance
