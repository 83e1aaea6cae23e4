import Mathlib
import Immittance.Proofs.Expression.Strict
import Immittance.Proofs.Text.Casing

/-!
# Expressions in any case

Parentheses, commas and colons stand in the same places after a change of case, kinds and wirings are
looked for in one case, and numerals are read in any. So an expression has the same circuit after a
change of case, or an error with the same issue.
-/

set_option autoImplicit false

namespace Immittance.Expression

open Text

variable {g : Char → Char}

/-! ## Splitting -/

theorem nesting_of_isAlpha : ∀ c : Char, c.isAlpha = true → nesting c = 0 :=
  forall_isAlpha (by decide +kernel)

theorem pieces_map (hg : Recasing g) (depth : ℤ) (s : List Char) :
    pieces depth (s.map g) = ((pieces depth s).1.map g, (pieces depth s).2.map (·.map g)) := by
  induction s generalizing depth with
  | nil => rfl
  | cons c s ih =>
    by_cases h : c = ',' ∧ depth = 0
    · obtain ⟨rfl, rfl⟩ := h
      rw [List.map_cons, hg.eq_self rfl, pieces_cut, pieces_cut, ih]
      rfl
    · have hgc : ¬(g c = ',' ∧ depth = 0) := by rwa [hg.eq_iff rfl]
      rw [List.map_cons, pieces_keep hgc, pieces_keep h, hg.apply_eq nesting_of_isAlpha, ih]
      rfl

theorem dropEmptyLast_map (ps : List (List Char)) :
    dropEmptyLast (ps.map (·.map g)) = (dropEmptyLast ps).map (·.map g) := by
  induction ps with
  | nil => rfl
  | cons p ps ih =>
    cases ps with
    | nil => cases p <;> rfl
    | cons q ps =>
      rw [List.map_cons, List.map_cons, dropEmptyLast, ← List.map_cons, ih, dropEmptyLast, List.map_cons]

theorem splitTopLevel_map (hg : Recasing g) (s : List Char) :
    splitTopLevel (s.map g) = (splitTopLevel s).map (·.map g) := by
  rw [splitTopLevel, hg.trim_map, List.isEmpty_map, pieces_map hg, splitTopLevel]
  split
  · rfl
  · dsimp only
    rw [← List.map_cons, dropEmptyLast_map, List.map_map, List.map_map]
    exact List.map_congr_left fun p _ => hg.trim_map p

theorem splitClose_map (hg : Recasing g) (depth : ℕ) (s : List Char) :
    splitClose depth (s.map g) = (splitClose depth s).map fun r => (r.1.map g, r.2.map g) := by
  induction s generalizing depth with
  | nil => rfl
  | cons c s ih =>
    by_cases hc : c = ')'
    · subst hc
      rw [List.map_cons, hg.eq_self rfl]
      cases depth with
      | zero => rfl
      | succ depth =>
        rw [splitClose_close, splitClose_close, ih, Option.map_map, Option.map_map]
        congr 1
        funext r
        exact congrArg (·, r.2.map g) (congrArg (· :: r.1.map g) (hg.eq_self rfl).symm)
    · have hgc : g c ≠ ')' := fun h => hc ((hg.eq_iff rfl c).mp h)
      simp only [List.map_cons, splitClose_other hgc, splitClose_other hc, hg.eq_iff (m := '(') rfl, ih,
        Option.map_map]
      rfl

/-! ## Shapes and tokens -/

def Shape.recase (g : Char → Char) : Shape → Shape
  | .token t => .token (t.map g)
  | .group w ms => .group w (ms.map (·.map g))

theorem shape_map (hg : Recasing g) (s : List Char) :
    (Shape.of (s.map g)).mapError ParseError.issue =
      ((Shape.of s).map (Shape.recase g)).mapError ParseError.issue := by
  have hopen := hg.eq_self (c := '(') rfl
  by_cases h : '(' ∈ s
  · obtain ⟨p, t, hp, rfl⟩ := exists_first h
    have hgp : '(' ∉ p.map g := by
      intro hm
      obtain ⟨c, hc, hgc⟩ := List.mem_map.mp hm
      exact hp ((hg.eq_iff rfl c).mp hgc ▸ hc)
    rw [List.map_append, List.map_cons, hopen, shape_of_paren hgp, shape_of_paren hp, splitClose_map hg,
      hg.trim_map, hg.lower_map]
    cases splitClose 0 t with
    | none => rfl
    | some r =>
      obtain ⟨body, rest⟩ := r
      simp only [Option.map_some, hg.trim_map, List.isEmpty_map, splitTopLevel_map hg]
      cases (trim rest).isEmpty with
      | false => rfl
      | true => cases Wiring.ofName? (lower (trim p)) <;> rfl
  · have hgs : '(' ∉ s.map g := by
      intro hm
      obtain ⟨c, hc, hgc⟩ := List.mem_map.mp hm
      exact h ((hg.eq_iff rfl c).mp hgc ▸ hc)
    rw [shape_of_noParen hgs, shape_of_noParen h, hg.trim_map]
    rfl

theorem ofWord?_map (hg : Recasing g) (word : List Char) :
    Kind.ofWord? (word.map g) = Kind.ofWord? word := by
  rw [Kind.ofWord?, hg.trim_map, hg.upper_map, Kind.ofWord?]

theorem value?_map (hg : Recasing g) (s : List Char) : Token.value? (s.map g) = Token.value? s := by
  rw [Token.value?, Decimal.read?_map hg, Token.value?]

theorem readTrimmed_map (hg : Recasing g) (s : List Char) :
    (Token.readTrimmed (s.map g)).mapError ParseError.issue =
      (Token.readTrimmed s).mapError ParseError.issue := by
  have hcolon : ∀ c, (g c != ':') = (c != ':') :=
    hg.apply_eq (f := (· != ':')) (b := true) (forall_isAlpha (by decide +kernel))
  rw [Token.readTrimmed, Token.readTrimmed, dropWhile_map hcolon, takeWhile_map hcolon]
  cases s.dropWhile (· != ':') with
  | nil => rfl
  | cons c after =>
    simp only [List.map_cons, hg.trim_map, List.isEmpty_map, value?_map hg, ofWord?_map hg]
    cases (trim (s.takeWhile (· != ':'))).isEmpty with
    | true => rfl
    | false =>
      cases Token.value? (trim after) with
      | none => rfl
      | some x => cases Kind.ofWord? (trim (s.takeWhile (· != ':'))) <;> rfl

theorem read_map (hg : Recasing g) (s : List Char) :
    (Token.read (s.map g)).mapError ParseError.issue = (Token.read s).mapError ParseError.issue := by
  simp only [Token.read, hg.trim_map, List.isEmpty_map]
  cases (trim s).isEmpty with
  | true => rfl
  | false => exact readTrimmed_map hg (trim s)

/-! ## Expressions -/

theorem parse_map (hg : Recasing g) (s : List Char) :
    (parse (s.map g)).mapError ParseError.issue = (parse s).mapError ParseError.issue := by
  induction s using parse.induct with
  | case1 s e hs =>
    have hshape := shape_map hg s
    rw [hs] at hshape
    obtain ⟨e', he', hissue⟩ := mapError_eq_error_iff.mp hshape
    rw [parse_of_error hs, parse_of_error he']
    exact congrArg Except.error hissue.symm
  | case2 s x hs =>
    have hshape := shape_map hg s
    rw [hs] at hshape
    rw [parse_of_token hs, parse_of_token (mapError_eq_ok_iff.mp hshape), map_mapError, map_mapError,
      read_map hg]
  | case3 s w ms hs ih =>
    have hshape := shape_map hg s
    rw [hs] at hshape
    have hms : (ms.mapM fun m => parse (m.map g)).mapError ParseError.issue =
        (ms.mapM parse).mapError ParseError.issue := by
      rw [← mapM_mapError (k := ParseError.issue) fun m _ => rfl]
      exact mapM_mapError fun m hm => ih ⟨m, hm⟩
    rw [parse_of_group hs, parse_of_group (mapError_eq_ok_iff.mp hshape), List.mapM_map, map_mapError,
      map_mapError]
    exact congrArg _ hms

/-- A text of basic characters has the same circuit in upper case and in lower case, or errors with
the same issue. -/
theorem parse_caseless {s : List Char} (h : ∀ c ∈ s, c.toNat < 0x80) :
    (∃ c, parse s = .ok c ∧ parse (upper s) = .ok c ∧ parse (lower s) = .ok c) ∨
      ∃ e u l, parse s = .error e ∧ parse (upper s) = .error u ∧ parse (lower s) = .error l ∧
        u.issue = e.issue ∧ l.issue = e.issue := by
  have hu : (parse (upper s)).mapError ParseError.issue = (parse s).mapError ParseError.issue := by
    rw [upper_eq_map h, parse_map recasing_toUpper]
  have hl : (parse (lower s)).mapError ParseError.issue = (parse s).mapError ParseError.issue := by
    rw [lower_eq_map h, parse_map recasing_toLower]
  cases hs : parse s with
  | ok c =>
    rw [hs] at hu hl
    exact Or.inl ⟨c, rfl, mapError_eq_ok_iff.mp hu, mapError_eq_ok_iff.mp hl⟩
  | error e =>
    rw [hs] at hu hl
    obtain ⟨u, hu, hui⟩ := mapError_eq_error_iff.mp hu
    obtain ⟨l, hl, hli⟩ := mapError_eq_error_iff.mp hl
    exact Or.inr ⟨e, u, l, rfl, hu, hl, hui.symm, hli.symm⟩

theorem parse_caseless_mixed :
    let s := "Series( r:1e3, Inductor:2E-1)".toList
    let c := Circuit.group .series [.part ⟨.resistor, (1000 : Float)⟩, .part ⟨.inductor, 0.2⟩]
    (∀ c ∈ s, c.toNat < 0x80) ∧ parse s = .ok c ∧
      parse "SERIES( R:1E3, INDUCTOR:2E-1)".toList = .ok c ∧
      parse "series( r:1e3, inductor:2e-1)".toList = .ok c := by
  intro s c
  have hbasic : ∀ c ∈ s, c.toNat < 0x80 := by
    have hall : s.all (fun c => c.toNat < 0x80) = true := rfl
    simpa only [List.all_eq_true, decide_eq_true_eq] using hall
  have hs : parse s = .ok c := by
    have hg : Shape.of s = .ok (.group .series ["r:1e3".toList, "Inductor:2E-1".toList]) := rfl
    have hr : Shape.of "r:1e3".toList = .ok (.token "r:1e3".toList) := rfl
    have hi : Shape.of "Inductor:2E-1".toList = .ok (.token "Inductor:2E-1".toList) := rfl
    simp only [parse_of_group hg, List.mapM_cons, parse_of_token hr, parse_of_token hi]
    rfl
  rcases parse_caseless hbasic with ⟨d, hd, hu, hl⟩ | ⟨e, -, -, he, -⟩
  · obtain rfl : c = d := Except.ok.inj (hs.symm.trans hd)
    exact ⟨hbasic, hs, hu, hl⟩
  · rw [hs] at he
    cases he

end Immittance.Expression
