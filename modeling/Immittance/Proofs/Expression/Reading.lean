import Mathlib
import Immittance.Expression.Parse
import Immittance.Proofs.Expression.Balance
import Immittance.Proofs.Results

/-!
# How expressions are read

The shape of a text in terms of the text itself, blanks included, and the three ways in which reading
goes on from a shape. What is proved about expressions starts from these equations.
-/

set_option autoImplicit false

namespace Immittance.Expression

open Text

/-! ## Wirings and their names -/

/-- A name has a wiring exactly when it begins with the wiring's word. -/
theorem ofName?_eq_some_iff {name : List Char} {w : Wiring} :
    Wiring.ofName? name = some w ↔ w.word <+: name := by
  have hs : Wiring.series.word.isPrefixOf name = true ↔ Wiring.series.word <+: name :=
    List.isPrefixOf_iff_prefix
  have hp : Wiring.parallel.word.isPrefixOf name = true ↔ Wiring.parallel.word <+: name :=
    List.isPrefixOf_iff_prefix
  have hnot : Wiring.series.word <+: name → ¬Wiring.parallel.word <+: name := by
    rintro ⟨t, rfl⟩ ⟨u, hu⟩
    simp [Wiring.word] at hu
  simp only [Wiring.ofName?, hs, hp]
  cases w with
  | series =>
    by_cases h : Wiring.series.word <+: name
    · simp [h]
    · by_cases k : Wiring.parallel.word <+: name <;> simp [h, k]
  | parallel =>
    by_cases h : Wiring.series.word <+: name
    · simp [h, hnot h]
    · by_cases k : Wiring.parallel.word <+: name <;> simp [h, k]

/-! ## Shapes -/

/-- Blanks at the end of a text are blanks at the end of what stands behind the parenthesis. -/
theorem splitClose_trimEnd (depth : ℕ) (s : List Char) :
    splitClose depth (trimEnd s) = (splitClose depth s).map fun r => (r.1, trimEnd r.2) := by
  have hclose : isBlank ')' = false := by decide
  cases h : splitClose depth s with
  | some r =>
    obtain ⟨b, rest⟩ := r
    obtain ⟨hb, rfl⟩ := splitClose_eq_some_iff.mp h
    rw [trimEnd_append_cons _ _ hclose]
    exact splitClose_eq_some_iff.mpr ⟨hb, rfl⟩
  | none =>
    cases k : splitClose depth (trimEnd s) with
    | none => rfl
    | some r =>
      obtain ⟨b, rest⟩ := r
      obtain ⟨hb, he⟩ := splitClose_eq_some_iff.mp k
      obtain ⟨v, -, hv⟩ := exists_trimEnd s
      have : splitClose depth s = some (b, rest ++ v) :=
        splitClose_eq_some_iff.mpr ⟨hb, by rw [hv, he]; simp⟩
      rw [this] at h
      exact absurd h (by simp)

/-- The shape of a text whose first opening parenthesis stands between `p` and `t`. -/
theorem shape_of_paren {p : List Char} (hp : '(' ∉ p) (t : List Char) :
    Shape.of (p ++ '(' :: t) =
      match splitClose 0 t with
      | none => .error (Issue.groupUnmatchedParen.error (trim (p ++ '(' :: t)) [])
      | some (body, rest) =>
        if !(trim rest).isEmpty then
          .error (Issue.groupTrailingChars.error (trim (p ++ '(' :: t)) [("trailing", trim rest)])
        else
          match Wiring.ofName? (lower (trim p)) with
          | none =>
            .error (Issue.groupUnknownConnection.error (trim (p ++ '(' :: t))
              [("name", lower (trim p))])
          | some w => .ok (.group w (splitTopLevel body)) := by
  have hopen : isBlank '(' = false := by decide
  have hs : '(' ∉ trimStart p := fun h => hp ((List.dropWhile_subset _) h)
  have ht := trim_append_cons p t hopen
  rw [Shape.of, Shape.ofTrimmed, ht, dropWhile_ne hs, takeWhile_ne hs, trim_trimStart]
  dsimp only
  rw [splitClose_trimEnd]
  cases splitClose 0 t with
  | none => rfl
  | some r =>
    obtain ⟨b, rest⟩ := r
    cases Wiring.ofName? (lower (trim p)) with
    | none => simp only [Option.map_some, trim_trimEnd]
    | some w => simp only [Option.map_some, trim_trimEnd]

/-- The three ways a group can be at fault, one checked after the other. -/
theorem shape_eq_error_iff {p : List Char} (hp : '(' ∉ p) {t : List Char} {e : ParseError} :
    Shape.of (p ++ '(' :: t) = .error e ↔
      (splitClose 0 t = none ∧ e = Issue.groupUnmatchedParen.error (trim (p ++ '(' :: t)) []) ∨
      ∃ body rest, splitClose 0 t = some (body, rest) ∧
        (¬Blank rest ∧ e = Issue.groupTrailingChars.error (trim (p ++ '(' :: t))
            [("trailing", trim rest)] ∨
          Blank rest ∧ Wiring.ofName? (lower (trim p)) = none ∧
            e = Issue.groupUnknownConnection.error (trim (p ++ '(' :: t))
              [("name", lower (trim p))]) := by
  have herror : ∀ e' : ParseError, (Except.error e' : Except ParseError Shape) = .error e ↔ e = e' :=
    fun e' => ⟨fun h => (Except.error.inj h).symm, fun h => congrArg Except.error h.symm⟩
  rw [shape_of_paren hp]
  cases splitClose 0 t with
  | none => simp [herror]
  | some r =>
    obtain ⟨body, rest⟩ := r
    by_cases hr : Blank rest
    · have ht := trim_eq_nil_iff.mpr hr
      cases Wiring.ofName? (lower (trim p)) with
      | none => simp [hr, ht, herror]
      | some w => simp [hr, ht]
    · have ht : trim rest ≠ [] := fun h => hr (trim_eq_nil_iff.mp h)
      simp [hr, ht, herror]

theorem shape_of_noParen {s : List Char} (h : '(' ∉ s) : Shape.of s = .ok (.token (trim s)) := by
  have ht : '(' ∉ trim s := by rwa [mem_trim (by decide)]
  rw [Shape.of, Shape.ofTrimmed, dropWhile_ne_eq_nil ht]

theorem shape_trim (s : List Char) : Shape.of (trim s) = Shape.of s := by
  rw [Shape.of, trim_trim, Shape.of]

theorem shape_eq_token_iff {s x : List Char} :
    Shape.of s = .ok (.token x) ↔ '(' ∉ s ∧ x = trim s := by
  by_cases h : '(' ∈ s
  · obtain ⟨p, t, hp, rfl⟩ := exists_first h
    rw [shape_of_paren hp]
    constructor
    · intro k
      split at k
      · simp at k
      · split at k
        · simp at k
        · split at k <;> simp at k
    · intro k
      exact absurd h k.1
  · rw [shape_of_noParen h]
    simp [h, eq_comm]

/-- A text is a group exactly when it is a wiring's name, a balanced body in parentheses, and blanks. -/
theorem shape_eq_group_iff {s : List Char} {w : Wiring} {ms : List (List Char)} :
    Shape.of s = .ok (.group w ms) ↔
      ∃ p b r, s = p ++ '(' :: (b ++ ')' :: r) ∧ '(' ∉ p ∧ w.word <+: lower (trim p) ∧
        Balanced b ∧ Blank r ∧ ms = splitTopLevel b := by
  constructor
  · intro h
    have hmem : '(' ∈ s := by
      by_contra k
      rw [shape_of_noParen k] at h
      simp at h
    obtain ⟨p, t, hp, rfl⟩ := exists_first hmem
    rw [shape_of_paren hp] at h
    cases k : splitClose 0 t with
    | none => simp [k] at h
    | some r =>
      obtain ⟨b, rest⟩ := r
      obtain ⟨hb, rfl⟩ := splitClose_eq_some_iff.mp k
      by_cases ht : trim rest = []
      · cases hn : Wiring.ofName? (lower (trim p)) with
        | none => simp [k, ht, hn] at h
        | some v =>
          simp only [k, ht, hn, List.isEmpty_nil, Bool.not_true, Bool.false_eq_true, if_false,
            Except.ok.injEq, Shape.group.injEq] at h
          obtain ⟨rfl, rfl⟩ := h
          exact ⟨p, b, rest, rfl, hp, ofName?_eq_some_iff.mp hn, balanced_iff_closes.mpr hb,
            trim_eq_nil_iff.mp ht, rfl⟩
      · simp [k, ht] at h
  · rintro ⟨p, b, r, rfl, hp, hw, hb, hr, rfl⟩
    have hc : splitClose 0 (b ++ ')' :: r) = some (b, r) :=
      splitClose_eq_some_iff.mpr ⟨balanced_iff_closes.mp hb, rfl⟩
    rw [shape_of_paren hp, hc]
    simp [trim_eq_nil_iff.mpr hr, ofName?_eq_some_iff.mpr hw]

/-! ## Reading on from a shape -/

theorem parse_of_error {s : List Char} {e : ParseError} (h : Shape.of s = .error e) :
    parse s = .error e := by
  rw [parse]
  split <;> simp_all

theorem parse_of_token {s x : List Char} (h : Shape.of s = .ok (.token x)) :
    parse s = (Token.read x).map .part := by
  rw [parse]
  split <;> simp_all

theorem parse_of_group {s : List Char} {w : Wiring} {ms : List (List Char)}
    (h : Shape.of s = .ok (.group w ms)) : parse s = (ms.mapM parse).map (.group w) := by
  rw [parse]
  split
  · simp_all
  · simp_all
  · next v members hshape =>
    obtain ⟨rfl, rfl⟩ : v = w ∧ members = ms := by simpa [hshape] using h
    rw [List.mapM_subtype (g := parse) (fun _ _ => rfl), List.unattach_attach]
    cases members.mapM parse <;> rfl

theorem parse_trim (s : List Char) : parse (trim s) = parse s := by
  have h := shape_trim s
  cases k : Shape.of s with
  | error e => rw [parse_of_error k, parse_of_error (h.trans k)]
  | ok shape =>
    cases shape with
    | token x => rw [parse_of_token k, parse_of_token (h.trans k)]
    | group w ms => rw [parse_of_group k, parse_of_group (h.trans k)]

end Immittance.Expression
