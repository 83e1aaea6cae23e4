import Mathlib
import Immittance.Proofs.Expression.Origin

/-!
# Parentheses that are never closed

Whether the first opening parenthesis of an expression has a match is found out before anything else
about it, and depends on nothing but the parentheses behind it. The members of a group are balanced,
so the issue is never raised by a text nested in another.
-/

set_option autoImplicit false

namespace Immittance.Expression

open Text

/-- The first opening parenthesis is never closed: what is read from there on, however far, has opened
more parentheses than it has closed. -/
def Unclosed (s : List Char) : Prop :=
  '(' ∈ s ∧ ∀ p, p ≠ [] → p <+: s.dropWhile (· != '(') → p.count ')' < p.count '('

theorem forall_prefix_cons {c : Char} {s : List Char} {P : List Char → Prop} :
    (∀ p, p <+: c :: s → P p) ↔ P [] ∧ ∀ p, p <+: s → P (c :: p) := by
  constructor
  · intro h
    exact ⟨h [] List.nil_prefix, fun p hp => h (c :: p) (List.cons_prefix_cons.mpr ⟨rfl, hp⟩)⟩
  · rintro ⟨hnil, hcons⟩ p hp
    rcases List.prefix_cons_iff.mp hp with rfl | ⟨q, rfl, hq⟩
    · exact hnil
    · exact hcons q hq

/-- What stands open is closed nowhere exactly when no prefix closes more than it opens. -/
theorem splitClose_eq_none_iff {depth : ℕ} {s : List Char} :
    splitClose depth s = none ↔ ∀ p, p <+: s → -(depth : ℤ) ≤ level p := by
  induction s generalizing depth with
  | nil => simp [splitClose]
  | cons c s ih =>
    rw [forall_prefix_cons]
    simp only [level_nil, level_cons]
    by_cases hc : c = ')'
    · subst hc
      have hnesting : nesting ')' = -1 := rfl
      cases depth with
      | zero =>
        constructor
        · intro h
          simp [splitClose] at h
        · rintro ⟨-, h⟩
          have := h [] List.nil_prefix
          simp [hnesting] at this
      | succ n =>
        rw [splitClose_close, Option.map_eq_none_iff, ih, hnesting]
        constructor
        · intro h
          exact ⟨by omega, fun p hp => by have := h p hp; omega⟩
        · rintro ⟨-, h⟩ p hp
          have := h p hp
          omega
    · rw [splitClose_other hc, Option.map_eq_none_iff, ih, cast_depth hc]
      constructor
      · intro h
        exact ⟨by omega, fun p hp => by have := h p hp; omega⟩
      · rintro ⟨-, h⟩ p hp
        have := h p hp
        omega

theorem unclosed_of_paren {u : List Char} (hu : '(' ∉ u) (t : List Char) :
    Unclosed (u ++ '(' :: t) ↔ splitClose 0 t = none := by
  have hopen : nesting '(' = 1 := rfl
  have hlevel : ∀ p : List Char, p.count ')' < p.count '(' ↔ 0 < level p := by
    intro p
    rw [level_eq]
    omega
  rw [Unclosed, dropWhile_ne hu, splitClose_eq_none_iff]
  simp only [hlevel]
  constructor
  · rintro ⟨-, h⟩ p hp
    have := h ('(' :: p) (by simp) (List.cons_prefix_cons.mpr ⟨rfl, hp⟩)
    rw [level_cons, hopen] at this
    omega
  · intro h
    refine ⟨by simp, fun p hne hp => ?_⟩
    rcases List.prefix_cons_iff.mp hp with rfl | ⟨q, rfl, hq⟩
    · exact absurd rfl hne
    · have := h q hq
      rw [level_cons, hopen]
      omega

/-- The shape of a text is unmatched exactly when the text is unclosed. -/
theorem shape_unmatched_iff {s : List Char} {e : ParseError} :
    Shape.of s = .error e ∧ e.issue = .groupUnmatchedParen ↔
      Unclosed s ∧ e = Issue.groupUnmatchedParen.error (trim s) [] := by
  by_cases hmem : '(' ∈ s
  · obtain ⟨u, t, hu, rfl⟩ := exists_first hmem
    rw [shape_eq_error_iff hu, unclosed_of_paren hu]
    constructor
    · rintro ⟨⟨hc, rfl⟩ | ⟨body, rest, -, ⟨-, rfl⟩ | ⟨-, -, rfl⟩⟩, hissue⟩
      · exact ⟨hc, rfl⟩
      · cases hissue
      · cases hissue
    · rintro ⟨hc, rfl⟩
      exact ⟨Or.inl ⟨hc, rfl⟩, rfl⟩
  · rw [shape_of_noParen hmem]
    constructor
    · rintro ⟨h, -⟩
      cases h
    · rintro ⟨h, -⟩
      exact absurd h.1 hmem

/-! ## Nested texts are balanced -/

theorem balanced_trim {s : List Char} (h : Balanced s) : Balanced (trim s) := by
  have hopen : isBlank '(' = false := by decide
  have hclose : isBlank ')' = false := by decide
  obtain ⟨u, v, hu, hv, hs⟩ := exists_trim s
  obtain ⟨heven, hprefix⟩ := h
  constructor
  · rw [hs] at heven
    simpa [count_of_blank hopen hu, count_of_blank hclose hu, count_of_blank hopen hv,
      count_of_blank hclose hv] using heven
  · intro p hp
    have hup : u ++ p <+: s := by
      rw [hs]
      exact (List.prefix_append_right_inj u).mpr (hp.trans (List.prefix_append _ _))
    simpa [count_of_blank hopen hu, count_of_blank hclose hu] using hprefix _ hup

theorem balanced_of_mem_splitTopLevel {m b : List Char} (hb : Balanced b)
    (h : m ∈ splitTopLevel b) : Balanced m := by
  by_cases hblank : Blank b
  · rw [splitTopLevel_of_blank hblank] at h
    cases h
  · obtain ⟨ps, -, hsplit, -, heach⟩ := exists_of_splitTopLevel hb hblank
    rw [hsplit] at h
    obtain ⟨p, hp, rfl⟩ := List.mem_map.mp h
    exact balanced_trim (heach p hp).1

theorem balanced_of_memberOf {m s : List Char} (h : MemberOf m s) : Balanced m := by
  obtain ⟨w, ms, hs, hm⟩ := h
  obtain ⟨p, b, r, -, -, -, hb, -, rfl⟩ := shape_eq_group_iff.mp hs
  exact balanced_of_mem_splitTopLevel hb hm

theorem not_unclosed_of_balanced {s : List Char} (h : Balanced s) : ¬Unclosed s := by
  rintro ⟨hmem, hopen⟩
  obtain ⟨u, t, hu, rfl⟩ := exists_first hmem
  have hrest := hopen ('(' :: t) (by simp) (by rw [dropWhile_ne hu])
  have heven := h.1
  rw [List.count_append, List.count_append, List.count_eq_zero_of_not_mem hu,
    List.count_eq_zero_of_not_mem (not_mem_close h hu)] at heven
  omega

theorem balanced_of_nested {m s : List Char} (h : Relation.TransGen MemberOf m s) : Balanced m := by
  obtain ⟨n, hm, -⟩ := Relation.TransGen.head'_iff.mp h
  exact balanced_of_memberOf hm

/-! ## The issue of an expression -/

theorem shape_of_faulty {s : List Char} {e : ParseError} (h : Faulty s e)
    (hgroup : e.issue.OfGroup) : Shape.of s = .error e := by
  cases h with
  | shape hs => exact hs
  | token hs hx =>
    obtain ⟨hno, -⟩ := shape_eq_token_iff.mp hs
    obtain ⟨hinput, htoken | hgroup'⟩ := input_of_faulty (.token hs hx)
    · exact absurd hgroup (Issue.not_ofGroup_of_ofToken htoken.1)
    · rw [hinput, mem_trim (by decide)] at hgroup'
      exact absurd hgroup'.2 hno

theorem unclosed_of_parse {s : List Char} {e : ParseError} (h : parse s = .error e)
    (hissue : e.issue = .groupUnmatchedParen) :
    Unclosed s ∧ e = Issue.groupUnmatchedParen.error (trim s) [] := by
  obtain ⟨m, hm, hfault⟩ := exists_faulty h
  have hgroup : e.issue.OfGroup := by
    rw [hissue]
    unfold Issue.OfGroup
    decide
  have hunclosed := shape_unmatched_iff.mp ⟨shape_of_faulty hfault hgroup, hissue⟩
  rcases Relation.reflTransGen_iff_eq_or_transGen.mp hm with rfl | hnested
  · exact hunclosed
  · exact absurd hunclosed.1 (not_unclosed_of_balanced (balanced_of_nested hnested))

/-- An expression has an unmatched parenthesis exactly when it is unclosed, whatever else is wrong
with it, and the error shows the whole of it; a text nested in it never has that issue. -/
theorem parse_unmatched_iff :
    (∀ (s : List Char) (e : ParseError),
      parse s = .error e ∧ e.issue = .groupUnmatchedParen ↔
        Unclosed s ∧ e = Issue.groupUnmatchedParen.error (trim s) []) ∧
    ∀ (s m : List Char) (e : ParseError), Relation.TransGen MemberOf m s →
      parse m = .error e → e.issue ≠ .groupUnmatchedParen := by
  refine ⟨fun s e => ⟨?raised, ?unclosed⟩, ?nested⟩
  case raised =>
    rintro ⟨h, hissue⟩
    exact unclosed_of_parse h hissue
  case unclosed =>
    intro h
    obtain ⟨hs, hissue⟩ := shape_unmatched_iff.mpr h
    exact ⟨parse_of_error hs, hissue⟩
  case nested =>
    intro s m e hm h hissue
    exact not_unclosed_of_balanced (balanced_of_nested hm) (unclosed_of_parse h hissue).1

theorem parse_unmatched_serial :
    let s := "series(serial(R:x))".toList
    let m := "serial(R:x)".toList
    let e := Issue.groupUnknownConnection.error m [("name", "serial".toList)]
    let open_ := " serial(R:x".toList
    Relation.TransGen MemberOf m s ∧ parse m = .error e ∧ e.issue ≠ .groupUnmatchedParen ∧
      Unclosed open_ ∧
      parse open_ = .error (Issue.groupUnmatchedParen.error "serial(R:x".toList []) := by
  intro s m e open_
  have hm : Relation.TransGen MemberOf m s := .single ⟨.series, [m], rfl, by simp⟩
  have he : parse m = .error e := parse_of_error rfl
  have hopen : Unclosed open_ :=
    (unclosed_of_paren (u := " serial".toList) (by decide) "R:x".toList).mpr rfl
  exact ⟨hm, he, parse_unmatched_iff.2 s m e hm he, hopen,
    ((parse_unmatched_iff.1 open_ _).mpr ⟨hopen, rfl⟩).1⟩

end Immittance.Expression
