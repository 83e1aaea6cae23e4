import Mathlib
import Immittance.Proofs.Expression.Balance
import Immittance.Proofs.Results

/-!
# The places where a body is cut

A body is cut at the commas with as many opening as closing parentheses in front of them, and its
members are the segments between one cut and the next. The pass that goes through it character by
character makes exactly these segments, balanced or not; the other way, texts that are joined with
blanks around them are found again.
-/

set_option autoImplicit false

namespace Immittance.Expression

open Text

def cuts (s : List Char) : List ℕ :=
  (List.range s.length).filter fun i =>
    s[i]? = some ',' ∧ (s.take i).count '(' = (s.take i).count ')'

def slice (s : List Char) (i j : ℕ) : List Char := (s.take j).drop i

def between (s : List Char) (places : List ℕ) : List (List Char) :=
  List.zipWith (slice s) (0 :: places.map (· + 1)) (places ++ [s.length])

def segments (s : List Char) : List (List Char) := between s (cuts s)

/-! ## Places one character further on -/

theorem zipWith_slice_succ (c : Char) (s : List Char) (is js : List ℕ) :
    List.zipWith (slice (c :: s)) (is.map (· + 1)) (js.map (· + 1)) =
      List.zipWith (slice s) is js := by
  rw [List.zipWith_map]
  rfl

theorem map_succ_concat (s : List Char) (c : Char) (places : List ℕ) :
    places.map (· + 1) ++ [(c :: s).length] = (places ++ [s.length]).map (· + 1) := by
  simp

theorem between_cut (c : Char) (s : List Char) (places : List ℕ) :
    between (c :: s) (0 :: places.map (· + 1)) = [] :: between s places := by
  have hstarts : (0 :: places.map (· + 1)).map (· + 1) =
      (0 + 1) :: (places.map (· + 1)).map (· + 1) := rfl
  rw [between, List.cons_append, List.zipWith_cons_cons, map_succ_concat, zipWith_slice_succ, between]
  rfl

theorem between_keep (c : Char) (s : List Char) (places : List ℕ) :
    ∃ first rest, between s places = first :: rest ∧
      between (c :: s) (places.map (· + 1)) = (c :: first) :: rest := by
  obtain ⟨stop, stops, hstops⟩ : ∃ stop stops, places ++ [s.length] = stop :: stops :=
    List.exists_cons_of_ne_nil (by simp)
  refine ⟨slice s 0 stop, List.zipWith (slice s) (places.map (· + 1)) stops, ?_, ?_⟩
  · rw [between, hstops, List.zipWith_cons_cons]
  · rw [between, map_succ_concat, hstops, List.map_cons, List.zipWith_cons_cons, zipWith_slice_succ]
    rfl

/-! ## The segments of a text -/

def cutsFrom (depth : ℤ) (s : List Char) : List ℕ :=
  (List.range s.length).filter fun i => s[i]? = some ',' ∧ depth + level (s.take i) = 0

theorem cuts_eq (s : List Char) : cuts s = cutsFrom 0 s := by
  have h : ∀ i, (s.take i).count '(' = (s.take i).count ')' ↔ 0 + level (s.take i) = 0 := by
    intro i
    rw [level_eq]
    omega
  simp only [cuts, cutsFrom, h]

theorem cutsFrom_cons (depth : ℤ) (c : Char) (s : List Char) :
    cutsFrom depth (c :: s) =
      if c = ',' ∧ depth = 0 then 0 :: (cutsFrom depth s).map (· + 1)
      else (cutsFrom (depth + nesting c) s).map (· + 1) := by
  have htail : ((List.range s.length).map (· + 1)).filter (fun i =>
      decide ((c :: s)[i]? = some ',' ∧ depth + level ((c :: s).take i) = 0)) =
      (cutsFrom (depth + nesting c) s).map (· + 1) := by
    rw [List.filter_map, cutsFrom]
    simp only [Function.comp_def, List.getElem?_cons_succ, List.take_succ_cons, level_cons, add_assoc]
  have hrange : List.range (c :: s).length = 0 :: (List.range s.length).map (· + 1) :=
    List.range_succ_eq_map
  rw [cutsFrom, hrange, List.filter_cons, htail]
  by_cases h : c = ',' ∧ depth = 0
  · obtain ⟨rfl, rfl⟩ := h
    simp
  · simp [h]

/-- The pass over a text makes the segments between the places to cut at. -/
theorem between_cutsFrom (depth : ℤ) (s : List Char) :
    between s (cutsFrom depth s) = (pieces depth s).1 :: (pieces depth s).2 := by
  induction s generalizing depth with
  | nil => rfl
  | cons c s ih =>
    rw [cutsFrom_cons]
    by_cases h : c = ',' ∧ depth = 0
    · obtain ⟨rfl, rfl⟩ := h
      rw [if_pos ⟨rfl, rfl⟩, between_cut, ih, pieces_cut]
    · obtain ⟨first, rest, hbetween, hkeep⟩ := between_keep c s (cutsFrom (depth + nesting c) s)
      rw [ih] at hbetween
      obtain ⟨rfl, rfl⟩ := List.cons.inj hbetween
      rw [if_neg h, hkeep, pieces_keep h]

theorem segments_eq (s : List Char) : segments s = (pieces 0 s).1 :: (pieces 0 s).2 := by
  rw [segments, cuts_eq, between_cutsFrom]

theorem splitTopLevel_segments {s : List Char} (h : ¬Blank s) :
    ∃ init last, segments s = init ++ [last] ∧
      splitTopLevel s = (if last = [] then init else init ++ [last]).map trim := by
  have hne : segments s ≠ [] := by simp [segments_eq]
  refine ⟨_, _, (List.dropLast_append_getLast hne).symm, ?_⟩
  rw [← dropEmptyLast_concat, List.dropLast_append_getLast, segments_eq,
    splitTopLevel_of_not_blank h]

/-! ## Joining with blanks around -/

def Padded (p t : List Char) : Prop := ∃ u v, Blank u ∧ Blank v ∧ t = u ++ (p ++ v)

theorem level_of_blank {s : List Char} (h : Blank s) : level s = 0 := by
  rw [level_eq, count_of_blank (by decide) h, count_of_blank (by decide) h]
  rfl

theorem uncut_of_blank {s : List Char} (h : Blank s) (depth : ℤ) : Uncut depth s :=
  uncut_of_not_mem fun hm => absurd (h _ hm) (by decide)

namespace Padded

variable {p t : List Char}

theorem trim_eq (h : Padded p t) : trim t = trim p := by
  obtain ⟨u, v, hu, hv, rfl⟩ := h
  exact trim_between hu hv p

theorem level_eq (h : Padded p t) : level t = level p := by
  obtain ⟨u, v, hu, hv, rfl⟩ := h
  simp [level_of_blank hu, level_of_blank hv]

theorem uncut (h : Padded p t) (hp : Uncut 0 p) : Uncut 0 t := by
  obtain ⟨u, v, hu, hv, rfl⟩ := h
  refine uncut_append (uncut_of_blank hu 0) ?_
  rw [level_of_blank hu]
  exact uncut_append hp (uncut_of_blank hv _)

end Padded

theorem map_trim_of_padded {ps ts : List (List Char)} (h : List.Forall₂ Padded ps ts)
    (hps : ∀ p ∈ ps, trim p = p) : ts.map trim = ps := by
  induction h with
  | nil => rfl
  | @cons p t ps ts hpt _ ih =>
    rw [List.map_cons, hpt.trim_eq, hps p (by simp), ih fun q hq => hps q (by simp [hq])]

theorem splitTopLevel_padded {init ts : List (List Char)} {last : List Char}
    (hps : ∀ p ∈ init ++ [last], trim p = p ∧ p.count '(' = p.count ')' ∧ Whole p)
    (hlast : last ≠ []) (h : List.Forall₂ Padded (init ++ [last]) ts) :
    splitTopLevel (joined ts) = init ++ [last] := by
  -- the text of the last member is found from the end of the list
  have hreverse : List.Forall₂ Padded (last :: init.reverse) ts.reverse := by
    simpa using List.forall₂_reverse_iff.mpr h
  obtain ⟨t, us, ht, -, hts⟩ := List.forall₂_cons_left_iff.mp hreverse
  obtain rfl : ts = us.reverse ++ [t] := by simpa using congrArg List.reverse hts
  have hblank : ¬Blank t := by
    rw [← trim_eq_nil_iff, ht.trim_eq, (hps last (by simp)).1]
    exact hlast
  have hlevel : ∀ q ∈ us.reverse ++ [t], Uncut 0 q ∧ level q = 0 := by
    refine forall_of_forall₂ h fun p hp q hpq => ?_
    obtain ⟨-, hcount, hwhole⟩ := hps p hp
    rw [hpq.level_eq, level_eq]
    exact ⟨hpq.uncut (whole_iff_uncut.mp hwhole), by omega⟩
  obtain ⟨q, qs, hqs⟩ : ∃ q qs, us.reverse ++ [t] = q :: qs := List.exists_cons_of_ne_nil (by simp)
  have hjoined : ¬Blank (joined (us.reverse ++ [t])) := fun hb =>
    hblank fun c hc => hb c ((infix_joined (by simp)).subset hc)
  rw [splitTopLevel_of_not_blank hjoined, hqs, pieces_joined (hqs ▸ hlevel), ← hqs,
    dropEmptyLast_concat, if_neg fun e => hblank (by simp [e, Blank])]
  exact map_trim_of_padded h fun p hp => (hps p hp).1

/-- A blank body has no members. Any other is cut at the commas with as many opening as closing
parentheses in front of them; its members are the segments without the blanks around them, the last
one aside if it is empty. Texts that are trimmed, even and whole, the last of them not empty, are the
members of what they are joined to, whatever blanks stand around them. -/
theorem splitTopLevel_cuts :
    (∀ s : List Char, Blank s → splitTopLevel s = []) ∧
    (∀ s : List Char, ¬Blank s → ∃ init last, segments s = init ++ [last] ∧
      splitTopLevel s = (if last = [] then init else init ++ [last]).map trim) ∧
    ∀ (init ts : List (List Char)) (last : List Char),
      (∀ p ∈ init ++ [last], trim p = p ∧ p.count '(' = p.count ')' ∧ Whole p) →
      last ≠ [] → List.Forall₂ Padded (init ++ [last]) ts →
      splitTopLevel (joined ts) = init ++ [last] :=
  ⟨fun _ => splitTopLevel_of_blank, fun _ => splitTopLevel_segments, fun _ _ _ => splitTopLevel_padded⟩

theorem splitTopLevel_cuts_padded :
    let s := "a),(b , c,".toList
    let init := [[], "f(a,b)".toList]
    let last := "c".toList
    let ts := [" ".toList, "f(a,b)\t".toList, " c".toList]
    (¬Blank s ∧ segments s = ["a),(b ".toList, " c".toList, []] ∧
      ∃ init last, segments s = init ++ [last] ∧
        splitTopLevel s = (if last = [] then init else init ++ [last]).map trim) ∧
    (∀ p ∈ init ++ [last], trim p = p ∧ p.count '(' = p.count ')' ∧ Whole p) ∧ last ≠ [] ∧
    List.Forall₂ Padded (init ++ [last]) ts ∧ splitTopLevel (joined ts) = init ++ [last] := by
  intro s init last ts
  have hs : ¬Blank s := fun h => absurd (h 'a' (by decide)) (by decide)
  have hwhole : ∀ p ∈ init ++ [last], Whole p := by
    simp [init, last, whole_iff_uncut, uncut_cons, uncut_nil, nesting]
  have hplain : ∀ p ∈ init ++ [last], trim p = p ∧ p.count '(' = p.count ')' := by decide
  have hps : ∀ p ∈ init ++ [last], trim p = p ∧ p.count '(' = p.count ')' ∧ Whole p :=
    fun p hp => ⟨(hplain p hp).1, (hplain p hp).2, hwhole p hp⟩
  have htab : Blank ['\t'] := by simp [Blank, isBlank, blanks]
  have hts : List.Forall₂ Padded (init ++ [last]) ts :=
    .cons ⟨[' '], [], blank_space, blank_nil, rfl⟩ (.cons ⟨[], ['\t'], blank_nil, htab, rfl⟩
      (.cons ⟨[' '], [], blank_space, blank_nil, rfl⟩ .nil))
  exact ⟨⟨hs, by decide, splitTopLevel_cuts.2.1 s hs⟩, hps, by decide, hts,
    splitTopLevel_cuts.2.2 init ts last hps (by decide) hts⟩

end Immittance.Expression
