import Mathlib
import Immittance.Proofs.Expression.Reading
import Immittance.Proofs.Expression.Tokens

/-!
# What an error is about

Each issue is about one text of the input it was found in, and that text, just as it stands, is what
the message shows. The issue of an unknown specification is about no input at all.
-/

set_option autoImplicit false

namespace Immittance

open Text Expression

def Template.filled (t : Template) (text : List Char) : List Char :=
  match t.slot with
  | none => t.before.toList ++ t.after.toList
  | some _ => t.before.toList ++ text ++ t.after.toList

inductive Issue.Blames : Issue → List Char → List Char → Prop
  | empty {s : List Char} (blank : Blank s) : Blames tokenEmpty s []
  | noSeparator {s : List Char} (noColon : ':' ∉ s) : Blames tokenNoSeparator s s
  | emptyKind {kind value : List Char} (noColon : ':' ∉ kind) (blank : Blank kind) :
      Blames tokenEmptyKind (kind ++ ':' :: value) (kind ++ ':' :: value)
  | invalidNumber {kind value : List Char} (noColon : ':' ∉ kind)
      (noValue : Token.value? (trim value) = none) :
      Blames tokenInvalidNumber (kind ++ ':' :: value) (trim value)
  | unknownKind {kind value : List Char} (noColon : ':' ∉ kind)
      (noKind : Kind.ofWord? (trim kind) = none) :
      Blames tokenUnknownKind (kind ++ ':' :: value) (trim kind)
  | unmatched {name rest : List Char} (noParen : '(' ∉ name)
      (open_ : ∀ body t, Balanced body → rest ≠ body ++ ')' :: t) :
      Blames groupUnmatchedParen (name ++ '(' :: rest) []
  | trailing {name body rest : List Char} (noParen : '(' ∉ name) (balanced : Balanced body)
      (notBlank : ¬Blank rest) :
      Blames groupTrailingChars (name ++ '(' :: (body ++ ')' :: rest)) (trim rest)
  | unknownConnection {name rest : List Char} (noParen : '(' ∉ name)
      (noWiring : ∀ w : Wiring, ¬w.word <+: lower (trim name)) :
      Blames groupUnknownConnection (name ++ '(' :: rest) (lower (trim name))

def Issue.OfToken (i : Issue) : Prop := "TOKEN_".toList <+: i.code.toList

def Issue.OfGroup (i : Issue) : Prop := "GROUP_".toList <+: i.code.toList

theorem Issue.not_ofGroup_of_ofToken {i : Issue} (h : i.OfToken) : ¬i.OfGroup := by
  cases i <;> revert h <;> unfold OfToken OfGroup <;> decide

theorem Issue.Blames.kind {i : Issue} {s text : List Char} (h : i.Blames s text) :
    i.OfToken ∨ i.OfGroup ∧ '(' ∈ s := by
  unfold OfToken OfGroup
  cases h with
  | empty | noSeparator | emptyKind | invalidNumber | unknownKind => exact Or.inl (by decide)
  | unmatched | trailing | unknownConnection => exact Or.inr ⟨by decide, by simp⟩

def ParseError.Faithful (e : ParseError) : Prop :=
  ∃ text, e.issue.Blames e.input text ∧ e.details = e.issue.template.filled text

namespace Expression

theorem filled_ne_missing (i : Issue) (text : List Char) (name : String)
    (args : Issue.Arguments) : i.template.filled text ≠ i.missing name args := by
  intro h
  have htake := congrArg (List.take 2) h
  have hmissing : (i.missing name args).take 2 = ['E', 'r'] := rfl
  rw [hmissing] at htake
  cases i <;> exact absurd htake (by simp [Template.filled, Issue.template])

theorem read_error {s : List Char} {e : ParseError} (h : Token.read s = .error e) :
    (e.input = s ∨ e.input = trim s) ∧ e.Faithful := by
  cases Token.read_eq_iff.mp h with
  | empty blank => exact ⟨Or.inl rfl, _, .empty (trim_eq_nil_iff.mp blank), rfl⟩
  | noSeparator _ noColon => exact ⟨Or.inr rfl, _, .noSeparator noColon, rfl⟩
  | emptyKind cut blank =>
    refine ⟨Or.inr rfl, _, ?_, rfl⟩
    rw [cut.split]
    exact .emptyKind cut.first blank
  | invalidNumber cut _ invalid =>
    refine ⟨Or.inr rfl, _, ?_, rfl⟩
    rw [cut.split]
    exact .invalidNumber cut.first (Token.value?_eq_none_iff.mpr invalid)
  | unknownKind cut _ _ _ noLetter noName =>
    refine ⟨Or.inr rfl, _, ?_, rfl⟩
    rw [cut.split]
    exact .unknownKind cut.first ((Kind.ofWord?_eq_none_iff (trim_trim _)).mpr ⟨noLetter, noName⟩)

theorem shape_error {s : List Char} {e : ParseError} (h : Shape.of s = .error e) :
    e.input = trim s ∧ e.issue.OfGroup ∧ e.Faithful := by
  have hgroup : ∀ i ∈ [Issue.groupUnmatchedParen, .groupTrailingChars, .groupUnknownConnection],
      i.OfGroup := by unfold Issue.OfGroup; decide
  have hmem : '(' ∈ trim s := by
    rw [mem_trim (by decide)]
    by_contra k
    rw [shape_of_noParen k] at h
    simp at h
  obtain ⟨name, t, hno, hs⟩ := exists_first hmem
  have htrim : trim (name ++ '(' :: t) = name ++ '(' :: t := by rw [← hs, trim_trim]
  rw [← shape_trim, hs, shape_eq_error_iff hno, htrim] at h
  rcases h with ⟨hc, rfl⟩ | ⟨body, rest, hc, ⟨hr, rfl⟩ | ⟨-, hw, rfl⟩⟩
  · refine ⟨hs.symm, hgroup _ (by simp [Issue.error]), _, .unmatched hno fun body u hb ht => ?_, rfl⟩
    rw [splitClose_eq_some_iff.mpr ⟨balanced_iff_closes.mp hb, ht⟩] at hc
    cases hc
  · obtain ⟨hb, rfl⟩ := splitClose_eq_some_iff.mp hc
    exact ⟨hs.symm, hgroup _ (by simp [Issue.error]), _,
      .trailing hno (balanced_iff_closes.mpr hb) hr, rfl⟩
  · refine ⟨hs.symm, hgroup _ (by simp [Issue.error]), _, .unknownConnection hno fun w hp => ?_, rfl⟩
    rw [ofName?_eq_some_iff.mpr hp] at hw
    cases hw

end Expression

end Immittance
