import Mathlib
import Immittance.Proofs.Expression.Structure

/-!
# One pass over an expression

The text behind the first opening parenthesis is cut at every parenthesis and comma. The pieces that
end at an opening parenthesis are names of groups; the others that are not blank are the tokens, in
the order of the parts of the circuit.
-/

set_option autoImplicit false

namespace Immittance.Expression

open Text

def cutFrom (piece : List Char) : List Char → List (List Char × Option Char)
  | [] => [(piece, none)]
  | c :: s =>
    if c = '(' ∨ c = ')' ∨ c = ',' then (piece, some c) :: cutFrom [] s
    else cutFrom (piece ++ [c]) s

def isToken (piece : List Char × Option Char) : Bool :=
  !piece.1.all isBlank && piece.2 != some '('

def tokensFrom (piece s : List Char) : List (List Char) :=
  ((cutFrom piece s).filter isToken).map (·.1)

def tokens (s : List Char) : List (List Char) := tokensFrom [] s

def scan (s : List Char) : Except ParseError (List (Part Float)) :=
  match s.dropWhile (· != '(') with
  | [] => (Token.read s).map fun p => [p]
  | _ :: t => (tokens t).mapM Token.read

/-! ## Where a text is cut -/

theorem tokensFrom_nil (piece : List Char) :
    tokensFrom piece [] = if isToken (piece, none) then [piece] else [] := by
  rw [tokensFrom, cutFrom, List.filter_singleton]
  cases isToken (piece, none) <;> rfl

theorem tokensFrom_cut {c : Char} (hc : c = '(' ∨ c = ')' ∨ c = ',') (piece s : List Char) :
    tokensFrom piece (c :: s) =
      (if isToken (piece, some c) then [piece] else []) ++ tokens s := by
  rw [tokensFrom, cutFrom, if_pos hc, List.filter_cons]
  cases isToken (piece, some c) <;> rfl

theorem tokensFrom_keep {c : Char} (hc : ¬(c = '(' ∨ c = ')' ∨ c = ',')) (piece s : List Char) :
    tokensFrom piece (c :: s) = tokensFrom (piece ++ [c]) s := by
  rw [tokensFrom, cutFrom, if_neg hc, tokensFrom]

theorem cutFrom_plain {s : List Char} (h : Plain s) (piece t : List Char) :
    cutFrom piece (s ++ t) = cutFrom (piece ++ s) t := by
  induction s generalizing piece with
  | nil => simp
  | cons c s ih =>
    obtain ⟨hc, hs⟩ := plain_cons.mp h
    rw [List.cons_append, cutFrom, if_neg hc, ih hs, List.append_assoc, List.singleton_append]

theorem tokensFrom_plain {s : List Char} (h : Plain s) (piece t : List Char) :
    tokensFrom piece (s ++ t) = tokensFrom (piece ++ s) t := by
  rw [tokensFrom, cutFrom_plain h, tokensFrom]

theorem tokens_plain {s : List Char} (h : Plain s) :
    tokens s = if isToken (s, none) then [s] else [] := by
  have hs := tokensFrom_plain h [] []
  rwa [List.append_nil, List.nil_append, tokensFrom_nil] at hs

theorem isToken_iff {s : List Char} : isToken (s, none) = true ↔ ¬Blank s := by
  simp [isToken, Blank]

theorem tokens_name {u : List Char} (h : Plain u) (t : List Char) :
    tokens (u ++ '(' :: t) = tokens t := by
  have hname : isToken (u, some '(') = false := by simp [isToken]
  rw [tokens, tokensFrom_plain h, tokensFrom_cut (Or.inl rfl), List.nil_append, hname]
  rfl

theorem tokens_blank {s : List Char} (h : Blank s) : tokens s = [] := by
  rw [tokens_plain (plain_of_blank h), if_neg fun hs => isToken_iff.mp hs h]

/-- At a comma or a closing parenthesis the pass starts anew. -/
theorem tokensFrom_append {c : Char} (hc : c = ')' ∨ c = ',') (piece s t : List Char) :
    tokensFrom piece (s ++ c :: t) = tokensFrom piece s ++ tokens t := by
  induction s generalizing piece with
  | nil =>
    have hend : isToken (piece, some c) = isToken (piece, none) := by
      rcases hc with rfl | rfl <;> rfl
    rw [List.nil_append, tokensFrom_cut (Or.inr hc), tokensFrom_nil, hend]
  | cons d s ih =>
    rw [List.cons_append]
    by_cases hd : d = '(' ∨ d = ')' ∨ d = ','
    · have htail : tokens (s ++ c :: t) = tokens s ++ tokens t := ih []
      rw [tokensFrom_cut hd, tokensFrom_cut hd, htail, List.append_assoc]
    · rw [tokensFrom_keep hd, tokensFrom_keep hd, ih]

theorem tokens_append {c : Char} (hc : c = ')' ∨ c = ',') (s t : List Char) :
    tokens (s ++ c :: t) = tokens s ++ tokens t :=
  tokensFrom_append hc [] s t

theorem addsUp_tokens : AddsUp tokens (· ++ ·) [] where
  blank _ hs := tokens_blank hs
  comma p s _ := tokens_append (Or.inr rfl) p s
  unit s := List.append_nil (tokens s)

/-! ## The tokens of a circuit -/

abbrev Reads := List.Forall₂ fun (t : List Char) (p : Part Float) => Token.read t = .ok p

theorem tokens_of_member {s : List Char} {ps : List (Part Float)} (hb : Balanced s) (hw : Whole s)
    (hne : ¬Blank s) (h : scan s = .ok ps) : Reads (tokens s) ps := by
  by_cases hmem : '(' ∈ s
  · obtain ⟨u, t, hu, rfl⟩ := exists_first hmem
    rw [scan, dropWhile_ne hu] at h
    rw [tokens_name (plain_of_member hb hw hu)]
    exact mapM_eq_ok_iff.mp h
  · have hplain : Plain s := by
      apply plain_of_member (t := []) _ _ hmem
      · rwa [List.append_nil]
      · rwa [List.append_nil]
    rw [scan, dropWhile_ne_eq_nil hmem] at h
    obtain ⟨p, hp, rfl⟩ := map_eq_ok_iff.mp h
    rw [tokens_plain hplain, if_pos (isToken_iff.mpr hne)]
    exact .cons hp .nil

theorem reads_of_members {ps : List (List Char)} {cs : List (Circuit Float)}
    (hps : ∀ p ∈ ps, Balanced p ∧ Whole p)
    (h : List.Forall₂ (fun p c => Derives p c ∧ scan p = .ok c.parts) ps cs) :
    Reads (ps.flatMap tokens) (cs.flatMap Circuit.parts) := by
  induction h with
  | nil => exact .nil
  | @cons p c ps cs hpc _ ih =>
    obtain ⟨hb, hw⟩ := hps p (by simp)
    rw [List.flatMap_cons, List.flatMap_cons]
    exact List.rel_append (tokens_of_member hb hw (not_blank_of_derives hpc.1) hpc.2)
      (ih fun q hq => hps q (List.mem_cons_of_mem _ hq))

theorem scan_of_derives {s : List Char} {c : Circuit Float} (h : Derives s c) :
    scan s = .ok c.parts := by
  refine h.by_members (motive := fun s c => scan s = .ok c.parts) ?token ?group
  case token =>
    intro s p hno hread
    rw [scan, dropWhile_ne_eq_nil hno, Circuit.parts_part]
    exact map_eq_ok_iff.mpr ⟨p, hread, rfl⟩
  case group =>
    intro name body rest w ps cs hno hb hr hm hps
    have hbody : tokens body = ps.flatMap tokens := by
      rw [addsUp_tokens.members hm]
      clear hm hps
      induction ps with
      | nil => rfl
      | cons p ps ih => rw [List.foldr_cons, ih, List.flatMap_cons]
    rw [scan, dropWhile_ne hno, Circuit.parts_group]
    dsimp only
    rw [tokens_append (Or.inl rfl), tokens_blank hr, List.append_nil, hbody, mapM_eq_ok_iff]
    exact reads_of_members (fun p hp => balanced_of_members hm hp) hps

/-- A circuit has as many groups as its expression has opening parentheses, nested as deep as the
parentheses behind the first, and the parts that one pass over the text finds, in order. -/
theorem parse_conserves {s : List Char} {c : Circuit Float} (h : parse s = .ok c) :
    c.groupCount = s.count '(' ∧
      IsGreatest {n : ℤ | ∃ p, p <+: s.dropWhile (· != '(') ∧ n = p.count '(' - p.count ')'}
        c.depth ∧
      scan s = .ok c.parts := by
  have hd := (parse_eq_ok_iff s c).mp h
  refine ⟨(count_of_derives hd).symm, ?_, scan_of_derives hd⟩
  rw [← deepest_of_derives hd]
  exact isGreatest_deepest _

theorem parse_conserves_nested :
    let s := "Series)1( R:1 ,parallel(C:2 ,), series( )) ".toList
    let c := Circuit.group .series [.part ⟨.resistor, (1 : Float)⟩,
      .group .parallel [.part ⟨.capacitor, 2⟩], .group .series []]
    parse s = .ok c ∧ c.groupCount = s.count '(' ∧ c.depth = 2 ∧
      IsGreatest {n : ℤ | ∃ p, p <+: s.dropWhile (· != '(') ∧ n = p.count '(' - p.count ')'} 2 ∧
      scan s = .ok [⟨.resistor, 1⟩, ⟨.capacitor, 2⟩] := by
  intro s c
  have hs : Shape.of s = .ok (.group .series ["R:1".toList, "parallel(C:2 ,)".toList,
    "series( )".toList]) := rfl
  have hr : Shape.of "R:1".toList = .ok (.token "R:1".toList) := rfl
  have hp : Shape.of "parallel(C:2 ,)".toList = .ok (.group .parallel ["C:2".toList]) := rfl
  have hc : Shape.of "C:2".toList = .ok (.token "C:2".toList) := rfl
  have he : Shape.of "series( )".toList = .ok (.group .series []) := rfl
  have h : parse s = .ok c := by
    simp only [parse_of_group hs, parse_of_group hp, parse_of_group he, List.mapM_cons,
      parse_of_token hr, parse_of_token hc]
    rfl
  have hparts : c.parts = [⟨.resistor, 1⟩, ⟨.capacitor, 2⟩] := by
    simp [c, Circuit.parts_group, Circuit.parts_part]
  obtain ⟨hcount, hdepth, hscan⟩ := parse_conserves h
  exact ⟨h, hcount, rfl, hdepth, hscan.trans (congrArg Except.ok hparts)⟩

end Immittance.Expression
