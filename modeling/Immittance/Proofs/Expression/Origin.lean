import Mathlib
import Immittance.Proofs.Expression.Blame

/-!
# Where an error comes from

Reading stops with the error of one text: the expression itself, or a text nested in it, whose shape
is at fault or which is a token that cannot be read. That text stands in the expression as it is, and
its trimmed form is the input that the error shows; read alone, it has the same error.
-/

set_option autoImplicit false

namespace Immittance.Expression

open Text

structure Trimmed (s : List Char) : Prop where
  start : ∀ c t, s = c :: t → isBlank c = false
  finish : ∀ c t, s = t ++ [c] → isBlank c = false

theorem trimmed_trim (s : List Char) : Trimmed (trim s) := by
  have hshort : ∀ u v, Blank u → Blank v → ∀ t, trim s = u ++ (t ++ v) → u = [] ∧ v = [] := by
    intro u v hu hv t h
    have hle := length_trim_le t
    have hself := trim_trim s
    rw [h, trim_between hu hv] at hself
    have hlength := congrArg List.length hself
    simp only [List.length_append] at hlength
    exact ⟨List.eq_nil_of_length_eq_zero (by omega), List.eq_nil_of_length_eq_zero (by omega)⟩
  constructor
  · intro c t h
    by_contra hc
    have := hshort [c] [] (by simpa [Blank] using hc) (by simp [Blank]) t (by simpa using h)
    simp at this
  · intro c t h
    by_contra hc
    have := hshort [] [c] (by simp [Blank]) (by simpa [Blank] using hc) t (by simpa using h)
    simp at this

/-! ## Nested texts -/

def MemberOf (m s : List Char) : Prop := ∃ w ms, Shape.of s = .ok (.group w ms) ∧ m ∈ ms

theorem infix_of_mem_splitTopLevel {m b : List Char} (h : m ∈ splitTopLevel b) : m <:+: b := by
  by_cases hb : Blank b
  · simp [splitTopLevel_of_blank hb] at h
  · rw [splitTopLevel_of_not_blank hb] at h
    obtain ⟨p, hp, rfl⟩ := List.mem_map.mp h
    have hj := infix_joined (mem_of_mem_dropEmptyLast hp)
    rw [joined_pieces] at hj
    exact (infix_trim p).trans hj

theorem infix_of_memberOf {m s : List Char} (h : MemberOf m s) : m <:+: s := by
  obtain ⟨w, ms, hs, hm⟩ := h
  obtain ⟨p, b, r, rfl, -, -, -, -, rfl⟩ := shape_eq_group_iff.mp hs
  exact (infix_of_mem_splitTopLevel hm).trans ⟨p ++ ['('], ')' :: r, by simp⟩

theorem infix_of_nested {m s : List Char} (h : Relation.ReflTransGen MemberOf m s) : m <:+: s := by
  induction h with
  | refl => exact List.infix_rfl
  | tail _ hmember ih => exact ih.trans (infix_of_memberOf hmember)

/-! ## Texts at fault -/

inductive Faulty (s : List Char) (e : ParseError) : Prop
  | shape (shape : Shape.of s = .error e)
  | token {x : List Char} (shape : Shape.of s = .ok (.token x)) (read : Token.read x = .error e)

theorem parse_of_faulty {s : List Char} {e : ParseError} (h : Faulty s e) : parse s = .error e := by
  cases h with
  | shape hs => exact parse_of_error hs
  | token hs hx => rw [parse_of_token hs, hx]; rfl

/-- The error of an expression is that of a text in it. -/
theorem exists_faulty {s : List Char} {e : ParseError} (h : parse s = .error e) :
    ∃ m, Relation.ReflTransGen MemberOf m s ∧ Faulty m e := by
  induction s using parse.induct with
  | case1 s e' hs =>
    rw [parse_of_error hs] at h
    obtain rfl := Except.error.inj h
    exact ⟨s, .refl, .shape hs⟩
  | case2 s x hs =>
    rw [parse_of_token hs, map_eq_error_iff] at h
    exact ⟨s, .refl, .token hs h⟩
  | case3 s w ms hs ih =>
    rw [parse_of_group hs, map_eq_error_iff] at h
    obtain ⟨m, hm, he⟩ := exists_of_mapM_error h
    obtain ⟨n, hn, hfault⟩ := ih ⟨m, hm⟩ he
    exact ⟨n, hn.tail ⟨w, ms, hs, hm⟩, hfault⟩

/-- The input of an error is the trimmed text at fault, a token's or a group's as its issue is. -/
theorem input_of_faulty {s : List Char} {e : ParseError} (h : Faulty s e) :
    e.input = trim s ∧
      (e.issue.OfToken ∧ '(' ∉ e.input ∨ e.issue.OfGroup ∧ '(' ∈ e.input) := by
  cases h with
  | shape hs =>
    obtain ⟨hinput, hgroup, text, hblames, -⟩ := shape_error hs
    rcases hblames.kind with htoken | ⟨-, hmem⟩
    · exact absurd hgroup (Issue.not_ofGroup_of_ofToken htoken)
    · exact ⟨hinput, Or.inr ⟨hgroup, hmem⟩⟩
  | token hs hx =>
    obtain ⟨hno, rfl⟩ := shape_eq_token_iff.mp hs
    obtain ⟨hinput, text, hblames, -⟩ := read_error hx
    rw [trim_trim, or_self] at hinput
    have hnone : '(' ∉ e.input := by rwa [hinput, mem_trim (by decide)]
    rcases hblames.kind with htoken | ⟨-, hmem⟩
    · exact ⟨hinput, Or.inl ⟨htoken, hnone⟩⟩
    · exact absurd hmem hnone

theorem parse_error {s : List Char} {e : ParseError} (h : parse s = .error e) : e.Faithful := by
  obtain ⟨m, -, hfault⟩ := exists_faulty h
  cases hfault with
  | shape hs => exact (shape_error hs).2.2
  | token _ hx => exact (read_error hx).2

/-- The input that an error shows stands in the expression as it is, has no blanks at its ends, and
read alone has the same error; it has an opening parenthesis if the issue is one of groups, and none
if it is one of tokens. -/
theorem parse_error_reproduced {s : List Char} {e : ParseError} (h : parse s = .error e) :
    e.input <:+: s ∧ Trimmed e.input ∧ parse e.input = .error e ∧
      (e.issue.OfToken → '(' ∉ e.input) ∧ (e.issue.OfGroup → '(' ∈ e.input) := by
  obtain ⟨m, hm, hfault⟩ := exists_faulty h
  obtain ⟨hinput, hkind⟩ := input_of_faulty hfault
  refine ⟨?stands, ?trimmed, ?reproduced, ?token, ?group⟩
  case stands =>
    rw [hinput]
    exact (infix_trim m).trans (infix_of_nested hm)
  case trimmed =>
    rw [hinput]
    exact trimmed_trim m
  case reproduced =>
    rw [hinput, parse_trim]
    exact parse_of_faulty hfault
  case token =>
    intro htoken
    rcases hkind with ⟨-, hno⟩ | ⟨hgroup, -⟩
    · exact hno
    · exact absurd hgroup (Issue.not_ofGroup_of_ofToken htoken)
  case group =>
    intro hgroup
    rcases hkind with ⟨htoken, -⟩ | ⟨-, hmem⟩
    · exact absurd hgroup (Issue.not_ofGroup_of_ofToken htoken)
    · exact hmem

theorem parse_error_reproduced_member :
    let s := "series(R:1, parallel( X:2 ) )".toList
    let e := Issue.tokenUnknownKind.error "X:2".toList [("kind", ['X'])]
    parse s = .error e ∧ e.input = "X:2".toList ∧ e.input <:+: s ∧ Trimmed e.input ∧
      parse e.input = .error e ∧ '(' ∉ e.input := by
  intro s e
  have hs : Shape.of s = .ok (.group .series ["R:1".toList, "parallel( X:2 )".toList]) := rfl
  have hr : Shape.of "R:1".toList = .ok (.token "R:1".toList) := rfl
  have hp : Shape.of "parallel( X:2 )".toList = .ok (.group .parallel ["X:2".toList]) := rfl
  have hx : Shape.of "X:2".toList = .ok (.token "X:2".toList) := rfl
  have he : parse s = .error e := by
    simp only [parse_of_group hs, parse_of_group hp, List.mapM_cons, parse_of_token hr,
      parse_of_token hx]
    rfl
  obtain ⟨hstands, htrimmed, hagain, htoken, -⟩ := parse_error_reproduced he
  exact ⟨he, rfl, hstands, htrimmed, hagain, htoken (by unfold Issue.OfToken; decide)⟩

end Immittance.Expression
