import Mathlib
import Immittance.Proofs.Description.Value
import Immittance.Proofs.Description.Recursion
import Immittance.Proofs.Expression.Scan
import Immittance.History

/-!
# The leaves of a circuit

The leaves of a circuit are its parts by recursion: a part is its own leaf, a group has those of its
members in order. Gathering parts with a list of waiting circuits finds the same, one circuit in each
turn. A description shows the leaves too, each as a name in front of a value in parentheses.
-/

set_option autoImplicit false

namespace Immittance.Circuit

open Text Expression

section
variable {α : Type}

mutual

def leaves : Circuit α → List (Part α)
  | .part p => [p]
  | .group _ members => leavesAll members

def leavesAll : List (Circuit α) → List (Part α)
  | [] => []
  | c :: cs => leaves c ++ leavesAll cs

end

theorem leavesAll_eq_flatMap (cs : List (Circuit α)) : leavesAll cs = cs.flatMap leaves := by
  induction cs with
  | nil => rfl
  | cons c cs ih => rw [leavesAll, ih, List.flatMap_cons]

theorem leavesAll_append (cs ds : List (Circuit α)) :
    leavesAll (cs ++ ds) = leavesAll cs ++ leavesAll ds := by
  simp only [leavesAll_eq_flatMap, List.flatMap_append]

theorem partsFrom_eq (found : List (Part α)) (waiting : List (Circuit α)) :
    partsFrom found waiting = found.reverse ++ leavesAll waiting := by
  induction found, waiting using partsFrom.induct with
  | case1 found => simp [partsFrom, leavesAll]
  | case2 found p rest ih => simp [partsFrom, leavesAll, leaves, ih]
  | case3 found w members rest ih => simp [partsFrom, leavesAll, leaves, leavesAll_append, ih]

theorem parts_eq_leaves (c : Circuit α) : c.parts = c.leaves := by
  rw [parts, partsFrom_eq, leavesAll, leavesAll, List.append_nil]
  rfl

/-! ## Gathering turn by turn -/

structure Gathering (α : Type) where
  found : List (Part α)
  waiting : List (Circuit α)

namespace Gathering

def start (c : Circuit α) : Gathering α := ⟨[], [c]⟩

def turn : Gathering α → Gathering α
  | ⟨found, []⟩ => ⟨found, []⟩
  | ⟨found, .part p :: rest⟩ => ⟨p :: found, rest⟩
  | ⟨found, .group _ members :: rest⟩ => ⟨found, members ++ rest⟩

theorem partsFrom_turn (s : Gathering α) :
    partsFrom s.turn.found s.turn.waiting = partsFrom s.found s.waiting := by
  obtain ⟨found, waiting⟩ := s
  cases waiting with
  | nil => rfl
  | cons c rest =>
    cases c with
    | part p => rw [turn, partsFrom]
    | group w members => rw [turn, partsFrom]

/-- A turn visits one circuit. -/
theorem sizes_turn (s : Gathering α) : sizes s.turn.waiting = sizes s.waiting - 1 := by
  obtain ⟨found, waiting⟩ := s
  cases waiting with
  | nil => rfl
  | cons c rest =>
    cases c with
    | part p =>
      simp only [turn, sizes, size]
      omega
    | group w members =>
      simp only [turn, sizes, size, sizes_append]
      omega

theorem iterate_turn (n : ℕ) (s : Gathering α) :
    partsFrom (turn^[n] s).found (turn^[n] s).waiting = partsFrom s.found s.waiting ∧
      sizes (turn^[n] s).waiting = sizes s.waiting - n := by
  induction n generalizing s with
  | zero => exact ⟨rfl, rfl⟩
  | succ n ih =>
    obtain ⟨hparts, hsizes⟩ := ih s.turn
    rw [Function.iterate_succ_apply, hparts, partsFrom_turn, hsizes, sizes_turn]
    exact ⟨rfl, by omega⟩

theorem waiting_eq_nil_iff {s : Gathering α} : s.waiting = [] ↔ sizes s.waiting = 0 := by
  constructor
  · intro h
    rw [h, sizes]
  · intro h
    cases hw : s.waiting with
    | nil => rfl
    | cons c rest =>
      have := size_pos c
      rw [hw, sizes] at h
      omega

theorem waiting_turns (c : Circuit α) (n : ℕ) :
    (turn^[n] (.start c)).waiting = [] ↔ c.size ≤ n := by
  rw [waiting_eq_nil_iff, (iterate_turn n _).2, start, sizes, sizes]
  omega

theorem turns_size (c : Circuit α) : turn^[c.size] (.start c) = ⟨c.leaves.reverse, []⟩ := by
  have hwaiting := (waiting_turns c c.size).mpr le_rfl
  have hfound : (turn^[c.size] (.start c)).found.reverse = c.leaves := by
    have hparts := (iterate_turn c.size (.start c)).1
    rw [hwaiting, partsFrom] at hparts
    exact hparts.trans (parts_eq_leaves c)
  rw [← hfound, List.reverse_reverse, ← hwaiting]

end Gathering

end

/-! ## Leaves in a description -/

def label? (x y : List Char × Option Char) : Option (List Char × List Char) :=
  if x.2 = some '(' ∧ y.2 = some ')' ∧ y.1 ≠ [] then some (trim x.1, y.1) else none

def labelsOf (pieces : List (List Char × Option Char)) : List (List Char × List Char) :=
  (pieces.zip pieces.tail).filterMap fun xy => label? xy.1 xy.2

def labels (s : List Char) : List (List Char × List Char) := labelsOf (cutFrom [] s)

theorem labelsOf_cons_cons (x y : List Char × Option Char) (pieces : List (List Char × Option Char)) :
    labelsOf (x :: y :: pieces) = (label? x y).toList ++ labelsOf (y :: pieces) := by
  rw [labelsOf, List.tail_cons, List.zip_cons_cons, List.filterMap_cons, labelsOf]
  cases label? x y <;> rfl

theorem labelsOf_skip {x : List Char × Option Char} (hx : x.2 ≠ some '(')
    (pieces : List (List Char × Option Char)) : labelsOf (x :: pieces) = labelsOf pieces := by
  cases pieces with
  | nil => rfl
  | cons y pieces => simp [labelsOf_cons_cons, label?, hx]

theorem cutFrom_piece {s : List Char} (hs : Plain s) {c : Char} (hc : c = '(' ∨ c = ')' ∨ c = ',')
    (piece t : List Char) :
    cutFrom piece (s ++ c :: t) = (piece ++ s, some c) :: cutFrom [] t := by
  rw [cutFrom_plain hs, cutFrom, if_pos hc]

theorem shortestText_ne_nil (x : Float) : shortestText x ≠ [] := by
  intro h
  have hread := readFloat?_shortestText x
  rw [h] at hread
  cases hread

def label (p : Part Float) : List Char × List Char := ([p.kind.letter], shortestText p.value)

theorem cutFrom_part (piece : List Char) (p : Part Float) (t : List Char) :
    cutFrom piece ((Circuit.part p).describe ++ t) =
      (piece ++ [p.kind.letter], some '(') :: (shortestText p.value, some ')') :: cutFrom [] t := by
  have hvalue := cutFrom_piece (plain_shortestText p.value) (Or.inr (Or.inl rfl)) [] t
  have hname := cutFrom_piece (spells_letter p.kind).plain (Or.inl rfl) piece
    (shortestText p.value ++ ')' :: t)
  rw [hvalue, List.nil_append] at hname
  rw [← hname, describe_part, Part.describe]
  simp

theorem cutFrom_group (piece : List Char) (w : Wiring) (cs : List (Circuit Float)) (t : List Char) :
    cutFrom piece ((Circuit.group w cs).describe ++ t) =
      (piece ++ w.word, some '(') :: cutFrom [] (body cs ++ ')' :: t) := by
  rw [← cutFrom_piece (plain_of_isKeyword (isKeyword_word w)) (Or.inl rfl), describe_group]
  simp

theorem exists_cutFrom_describe (piece : List Char) (c : Circuit Float) (t : List Char) :
    ∃ name pieces, cutFrom piece (c.describe ++ t) = (name, some '(') :: pieces := by
  cases c with
  | part p => exact ⟨_, _, cutFrom_part piece p t⟩
  | group w cs => exact ⟨_, _, cutFrom_group piece w cs t⟩

/-- The name of a group stands in front of no value. -/
theorem labelsOf_group (name : List Char) (cs : List (Circuit Float)) (t : List Char) :
    labelsOf ((name, some '(') :: cutFrom [] (body cs ++ ')' :: t)) =
      labelsOf (cutFrom [] (body cs ++ ')' :: t)) := by
  obtain ⟨y, pieces, hcut, hy⟩ : ∃ y pieces, cutFrom [] (body cs ++ ')' :: t) = y :: pieces ∧
      ¬(y.2 = some ')' ∧ y.1 ≠ []) := by
    cases cs with
    | nil => exact ⟨([], some ')'), cutFrom [] t, by simp [cutFrom], by simp⟩
    | cons c cs =>
      obtain ⟨rest, hrest⟩ : ∃ rest, body (c :: cs) = c.describe ++ rest := by
        cases cs with
        | nil => exact ⟨[], by simp⟩
        | cons d cs => exact ⟨_, body_cons_cons c d cs⟩
      obtain ⟨first, pieces, hcut⟩ := exists_cutFrom_describe [] c (rest ++ ')' :: t)
      exact ⟨_, pieces, by rw [hrest, List.append_assoc, hcut], by simp⟩
  rw [hcut, labelsOf_cons_cons, label?, if_neg fun h => hy h.2]
  rfl

theorem labelsOf_body {cs : List (Circuit Float)}
    (h : ∀ c ∈ cs, ∀ piece t, Blank piece → labelsOf (cutFrom piece (c.describe ++ t)) =
      c.leaves.map label ++ labelsOf (cutFrom [] t)) (piece t : List Char) (hp : Blank piece) :
    labelsOf (cutFrom piece (body cs ++ ')' :: t)) =
      (leavesAll cs).map label ++ labelsOf (cutFrom [] t) := by
  induction cs generalizing piece with
  | nil =>
    rw [body_nil, List.nil_append, cutFrom, if_pos (by simp), labelsOf_skip (by simp)]
    rfl
  | cons c cs ih =>
    have hc := fun rest => h c (by simp) piece rest hp
    have htail := ih fun d hd => h d (by simp [hd])
    rw [leavesAll, List.map_append, List.append_assoc]
    cases cs with
    | nil => rw [body_singleton, hc, ← htail [] blank_nil, body_nil, List.nil_append]
    | cons d cs =>
      have hcomma : labelsOf (cutFrom [] (',' :: ' ' :: (body (d :: cs) ++ ')' :: t))) =
          labelsOf (cutFrom [' '] (body (d :: cs) ++ ')' :: t)) := by
        rw [cutFrom, if_pos (by simp), labelsOf_skip (by simp), cutFrom, if_neg (by decide),
          List.nil_append]
      rw [body_cons_cons, List.append_assoc, List.cons_append, List.cons_append, hc, hcomma,
        htail [' '] blank_space]

theorem labelsOf_describe (c : Circuit Float) : ∀ piece t, Blank piece →
    labelsOf (cutFrom piece (c.describe ++ t)) = c.leaves.map label ++ labelsOf (cutFrom [] t) := by
  induction c using Circuit.by_members with
  | part p =>
    intro piece t hp
    have hname : trim (piece ++ [p.kind.letter]) = [p.kind.letter] := by
      rw [trim_blank_append hp]
      cases p.kind <;> rfl
    have hlabel : label? (piece ++ [p.kind.letter], some '(') (shortestText p.value, some ')') =
        some (label p) := by
      rw [label?, if_pos ⟨rfl, rfl, shortestText_ne_nil p.value⟩, hname, label]
    rw [cutFrom_part, labelsOf_cons_cons, hlabel, labelsOf_skip (by simp)]
    rfl
  | group w cs ih =>
    intro piece t hp
    rw [cutFrom_group, labelsOf_group, labelsOf_body ih [] t blank_nil, leaves]

theorem labels_describe (c : Circuit Float) : labels c.describe = c.leaves.map label := by
  have h := labelsOf_describe c [] [] blank_nil
  rwa [List.append_nil, show labelsOf (cutFrom [] []) = [] from rfl, List.append_nil] at h

/-- The parts of a circuit are its leaves by recursion, found in exactly as many turns as there are
circuits in it. A calculation lists them, one for each leaf and in order, with the letters and the
values that its expression shows. -/
theorem parts_recursive (c : Circuit Float) :
    c.parts = c.leaves ∧
    (∀ n, (Gathering.turn^[n] (.start c)).waiting = [] ↔ c.size ≤ n) ∧
    Gathering.turn^[c.size] (.start c) = ⟨c.leaves.reverse, []⟩ ∧
    ∀ (name : List Char) (f : Float) (z : Phasor Float),
      let r := Entry.named name ⟨c, f, z⟩
      r.parts = c.leaves ∧
        labels r.expression = r.parts.map fun p => ([p.kind.letter], shortestText p.value) := by
  refine ⟨parts_eq_leaves c, Gathering.waiting_turns c, Gathering.turns_size c, fun name f z => ?_⟩
  intro r
  have hparts : r.parts = c.leaves := parts_eq_leaves c
  refine ⟨hparts, ?_⟩
  rw [hparts]
  exact labels_describe c

end Immittance.Circuit
