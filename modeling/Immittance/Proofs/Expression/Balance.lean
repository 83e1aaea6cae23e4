import Mathlib
import Immittance.Expression.Shape
import Immittance.Proofs.Text.Trim

/-!
# Balanced texts

The level of a text is the number of parentheses it opens less those it closes. The two loops over an
expression are described by it: the matching parenthesis ends the longest text that closes no more
than it opens, and a body is cut at exactly the commas at level zero.
-/

set_option autoImplicit false

namespace Immittance.Expression

open Text

def Balanced (s : List Char) : Prop :=
  s.count '(' = s.count ')' ∧ ∀ p, p <+: s → p.count ')' ≤ p.count '('

def Whole (s : List Char) : Prop :=
  ∀ p q, s = p ++ ',' :: q → p.count '(' ≠ p.count ')'

/-! ## Levels -/

def level (s : List Char) : ℤ := (s.map nesting).sum

@[simp] theorem level_nil : level [] = 0 := rfl

@[simp] theorem level_cons (c : Char) (s : List Char) : level (c :: s) = nesting c + level s := by
  simp [level]

@[simp] theorem level_append (s t : List Char) : level (s ++ t) = level s + level t := by
  simp [level]

@[simp] theorem nesting_comma : nesting ',' = 0 := rfl

theorem level_eq (s : List Char) : level s = (s.count '(' : ℤ) - (s.count ')' : ℤ) := by
  induction s with
  | nil => rfl
  | cons c s ih =>
    rw [level_cons, ih, List.count_cons, List.count_cons]
    by_cases h : c = '('
    · subst h
      simp [nesting]
      ring
    · by_cases k : c = ')'
      · subst k
        simp [nesting]
        ring
      · simp [nesting, h, k]

theorem not_mem_close {u t : List Char} (h : Balanced (u ++ t)) (hu : '(' ∉ u) : ')' ∉ u := by
  have hle := h.2 u (List.prefix_append _ _)
  rw [List.count_eq_zero_of_not_mem hu] at hle
  exact List.count_eq_zero.mp (by omega)

def Closes (depth : ℤ) (s : List Char) : Prop :=
  level s = -depth ∧ ∀ p, p <+: s → -depth ≤ level p

theorem balanced_iff_closes {s : List Char} : Balanced s ↔ Closes 0 s := by
  simp only [Balanced, Closes, level_eq, neg_zero]
  constructor
  · rintro ⟨hs, hp⟩
    exact ⟨by omega, fun p h => by have := hp p h; omega⟩
  · rintro ⟨hs, hp⟩
    exact ⟨by omega, fun p h => by have := hp p h; omega⟩

theorem closes_nil {depth : ℤ} : Closes depth [] ↔ depth = 0 := by
  constructor
  · intro h
    have := h.1
    simp at this
    exact this
  · rintro rfl
    exact ⟨rfl, fun p hp => by simp [List.prefix_nil.mp hp]⟩

theorem closes_cons {depth : ℤ} {c : Char} {s : List Char} :
    Closes depth (c :: s) ↔ 0 ≤ depth ∧ Closes (depth + nesting c) s := by
  constructor
  · rintro ⟨hs, hp⟩
    rw [level_cons] at hs
    refine ⟨by simpa using hp [] List.nil_prefix, by omega, fun p h => ?_⟩
    have := hp (c :: p) (List.cons_prefix_cons.mpr ⟨rfl, h⟩)
    rw [level_cons] at this
    omega
  · rintro ⟨h0, hs, hp⟩
    refine ⟨by rw [level_cons]; omega, fun p h => ?_⟩
    rcases List.prefix_cons_iff.mp h with rfl | ⟨q, rfl, hq⟩
    · simpa using h0
    · have := hp q hq
      rw [level_cons]
      omega

theorem splitClose_close (depth : ℕ) (s : List Char) :
    splitClose (depth + 1) (')' :: s) =
      (splitClose depth s).map fun r => (')' :: r.1, r.2) := by
  simp [splitClose]

theorem splitClose_other {c : Char} (hc : c ≠ ')') (depth : ℕ) (s : List Char) :
    splitClose depth (c :: s) =
      (splitClose (if c = '(' then depth + 1 else depth) s).map fun r => (c :: r.1, r.2) := by
  cases depth <;> simp [splitClose, hc]

theorem cast_depth {c : Char} (hc : c ≠ ')') (depth : ℕ) :
    ((if c = '(' then depth + 1 else depth : ℕ) : ℤ) = depth + nesting c := by
  by_cases ho : c = '('
  · simp [nesting, ho]
  · simp [nesting, ho, hc]

/-- The text is found up to the parenthesis that closes what stands open, and no other. -/
theorem splitClose_eq_some_iff {depth : ℕ} {s b r : List Char} :
    splitClose depth s = some (b, r) ↔ Closes depth b ∧ s = b ++ ')' :: r := by
  induction s generalizing depth b with
  | nil => simp [splitClose]
  | cons c s ih =>
    by_cases hc : c = ')'
    · subst hc
      cases depth with
      | zero =>
        constructor
        · intro h
          obtain ⟨rfl, rfl⟩ : b = [] ∧ r = s := by simpa [splitClose, eq_comm] using h
          exact ⟨closes_nil.mpr rfl, rfl⟩
        · rintro ⟨hb, hs⟩
          cases b with
          | nil => simp_all [splitClose]
          | cons d b =>
            obtain ⟨rfl, -⟩ : ')' = d ∧ s = b ++ ')' :: r := by simpa using hs
            -- A closing parenthesis at depth zero would go below.
            have := (closes_cons.mp hb).2.2 [] List.nil_prefix
            simp [nesting] at this
      | succ n =>
        rw [splitClose_close]
        constructor
        · intro h
          obtain ⟨⟨b', r'⟩, hb', e⟩ := Option.map_eq_some_iff.mp h
          obtain ⟨rfl, rfl⟩ : ')' :: b' = b ∧ r' = r := by simpa using e
          obtain ⟨hcl, rfl⟩ := ih.mp hb'
          exact ⟨closes_cons.mpr ⟨by omega, by simpa [nesting] using hcl⟩, rfl⟩
        · rintro ⟨hb, hs⟩
          cases b with
          | nil =>
            have := closes_nil.mp hb
            omega
          | cons d b =>
            obtain ⟨rfl, rfl⟩ : ')' = d ∧ s = b ++ ')' :: r := by simpa using hs
            have hcl : Closes n b := by simpa [nesting] using (closes_cons.mp hb).2
            rw [ih.mpr ⟨hcl, rfl⟩]
            rfl
    · have hn := cast_depth hc depth
      rw [splitClose_other hc]
      constructor
      · intro h
        obtain ⟨⟨b', r'⟩, hb', e⟩ := Option.map_eq_some_iff.mp h
        obtain ⟨rfl, rfl⟩ : c :: b' = b ∧ r' = r := by simpa using e
        obtain ⟨hcl, rfl⟩ := ih.mp hb'
        exact ⟨closes_cons.mpr ⟨by omega, by rwa [hn] at hcl⟩, rfl⟩
      · rintro ⟨hb, hs⟩
        cases b with
        | nil =>
          obtain ⟨e, -⟩ : c = ')' ∧ s = r := by simpa using hs
          exact absurd e hc
        | cons d b =>
          obtain ⟨rfl, rfl⟩ : c = d ∧ s = b ++ ')' :: r := by simpa using hs
          have hcl := (closes_cons.mp hb).2
          rw [← hn] at hcl
          rw [ih.mpr ⟨hcl, rfl⟩]
          rfl

/-! ## Texts joined by commas -/

def joined (ps : List (List Char)) : List Char := [','].intercalate ps

@[simp] theorem joined_nil : joined [] = [] := rfl

@[simp] theorem joined_singleton (p : List Char) : joined [p] = p := by
  simp [joined, List.intercalate]

@[simp] theorem joined_cons_cons (p q : List Char) (ps : List (List Char)) :
    joined (p :: q :: ps) = p ++ ',' :: joined (q :: ps) := by
  simp [joined, List.intercalate]

theorem joined_concat_nil {ps : List (List Char)} (h : ps ≠ []) :
    joined (ps ++ [[]]) = joined ps ++ [','] := by
  induction ps with
  | nil => exact absurd rfl h
  | cons p ps ih =>
    cases ps with
    | nil => simp
    | cons q ps =>
      have := ih (by simp)
      simp only [List.cons_append, joined_cons_cons] at this ⊢
      rw [this]
      simp

/-- A text that is joined to others stands in the whole as it is. -/
theorem infix_joined {p : List Char} {ps : List (List Char)} (h : p ∈ ps) : p <:+: joined ps := by
  induction ps with
  | nil => cases h
  | cons q ps ih =>
    cases ps with
    | nil =>
      obtain rfl : p = q := by simpa using h
      simp
    | cons r ps =>
      rw [joined_cons_cons]
      rcases List.mem_cons.mp h with rfl | hm
      · exact (List.prefix_append _ _).isInfix
      · exact (ih hm).trans ⟨q ++ [','], [], by simp⟩

theorem length_le_joined {p : List Char} {ps : List (List Char)} (h : p ∈ ps) :
    p.length ≤ (joined ps).length :=
  (infix_joined h).length_le

/-! ## Cutting at the commas at level zero -/

def Uncut (depth : ℤ) (s : List Char) : Prop :=
  ∀ p q, s = p ++ ',' :: q → depth + level p ≠ 0

theorem whole_iff_uncut {s : List Char} : Whole s ↔ Uncut 0 s := by
  have h : ∀ p, p.count '(' ≠ p.count ')' ↔ 0 + level p ≠ 0 := by
    intro p
    rw [level_eq]
    omega
  simp only [Whole, Uncut, h]

theorem uncut_nil {depth : ℤ} : Uncut depth [] := by
  intro p q h
  simp at h

theorem uncut_cons {depth : ℤ} {c : Char} {s : List Char} :
    Uncut depth (c :: s) ↔ ¬(c = ',' ∧ depth = 0) ∧ Uncut (depth + nesting c) s := by
  constructor
  · intro h
    refine ⟨?_, fun p q hs => ?_⟩
    · rintro ⟨rfl, rfl⟩
      exact h [] s rfl rfl
    · have := h (c :: p) q (by rw [hs]; rfl)
      rw [level_cons] at this
      omega
  · rintro ⟨hc, hs⟩ p q h
    cases p with
    | nil =>
      obtain ⟨rfl, -⟩ : c = ',' ∧ s = q := by simpa using h
      intro e
      exact hc ⟨rfl, by simpa using e⟩
    | cons d p =>
      obtain ⟨rfl, rfl⟩ : c = d ∧ s = p ++ ',' :: q := by simpa using h
      have := hs p q rfl
      rw [level_cons]
      omega

theorem pieces_cut (s : List Char) :
    pieces 0 (',' :: s) = ([], (pieces 0 s).1 :: (pieces 0 s).2) := by
  simp [pieces]

theorem pieces_keep {depth : ℤ} {c : Char} (h : ¬(c = ',' ∧ depth = 0)) (s : List Char) :
    pieces depth (c :: s) =
      (c :: (pieces (depth + nesting c) s).1, (pieces (depth + nesting c) s).2) := by
  rw [pieces, if_neg h]

theorem pieces_append {depth : ℤ} {p : List Char} (h : Uncut depth p) (s : List Char) :
    pieces depth (p ++ s) =
      (p ++ (pieces (depth + level p) s).1, (pieces (depth + level p) s).2) := by
  induction p generalizing depth with
  | nil => simp
  | cons c p ih =>
    obtain ⟨hc, hp⟩ := uncut_cons.mp h
    rw [List.cons_append, pieces_keep hc, ih hp, level_cons, ← add_assoc]
    rfl

theorem pieces_joined {p : List Char} {ps : List (List Char)}
    (h : ∀ q ∈ p :: ps, Uncut 0 q ∧ level q = 0) : pieces 0 (joined (p :: ps)) = (p, ps) := by
  induction ps generalizing p with
  | nil =>
    have := pieces_append (h p (by simp)).1 []
    simpa [pieces] using this
  | cons q ps ih =>
    obtain ⟨hu, hl⟩ := h p (by simp)
    have hq := ih (fun r hr => h r (List.mem_cons_of_mem _ hr))
    rw [joined_cons_cons, pieces_append hu, hl, zero_add, pieces_cut, hq, List.append_nil]

theorem joined_pieces (depth : ℤ) (s : List Char) :
    joined ((pieces depth s).1 :: (pieces depth s).2) = s := by
  induction s generalizing depth with
  | nil => simp [pieces]
  | cons c s ih =>
    by_cases h : c = ',' ∧ depth = 0
    · obtain ⟨rfl, rfl⟩ := h
      rw [pieces_cut, joined_cons_cons, ih 0]
      rfl
    · have hs := ih (depth + nesting c)
      rw [pieces_keep h]
      cases k : (pieces (depth + nesting c) s).2 with
      | nil => rw [k, joined_singleton] at hs; rw [joined_singleton, hs]
      | cons q qs =>
        rw [k, joined_cons_cons] at hs
        rw [joined_cons_cons, List.cons_append, hs]

def Cut (depth : ℤ) (p : List Char) : List (List Char) → Prop
  | [] => Uncut depth p
  | q :: qs => Uncut depth p ∧ depth + level p = 0 ∧ Cut 0 q qs

theorem cut_pieces (depth : ℤ) (s : List Char) :
    Cut depth (pieces depth s).1 (pieces depth s).2 := by
  induction s generalizing depth with
  | nil => exact uncut_nil
  | cons c s ih =>
    by_cases h : c = ',' ∧ depth = 0
    · obtain ⟨rfl, rfl⟩ := h
      rw [pieces_cut]
      exact ⟨uncut_nil, rfl, ih 0⟩
    · have hs := ih (depth + nesting c)
      rw [pieces_keep h]
      cases k : (pieces (depth + nesting c) s).2 with
      | nil =>
        rw [k] at hs
        exact uncut_cons.mpr ⟨h, hs⟩
      | cons q qs =>
        rw [k] at hs
        obtain ⟨hu, hl, hq⟩ := hs
        exact ⟨uncut_cons.mpr ⟨h, hu⟩, by rw [level_cons]; omega, hq⟩

/-! ## Balanced pieces -/

theorem closes_of_append {p s : List Char} (hp : level p = 0) (h : Closes 0 (p ++ ',' :: s)) :
    Closes 0 p ∧ Closes 0 s := by
  obtain ⟨hl, hle⟩ := h
  constructor
  · exact ⟨by omega, fun q hq => hle q (hq.trans (List.prefix_append _ _))⟩
  · refine ⟨by simpa [hp] using hl, fun q hq => ?_⟩
    have := hle (p ++ ',' :: q) (by simpa using hq)
    simpa [hp] using this

theorem closes_append {p s : List Char} {d e : ℤ} (hp : Closes d p) (hs : Closes e s) :
    Closes (d + e) (p ++ s) := by
  induction p generalizing d with
  | nil => rwa [closes_nil.mp hp, zero_add]
  | cons c p ih =>
    obtain ⟨h0, hcl⟩ := closes_cons.mp hp
    have he : 0 ≤ e := by simpa using hs.2 [] List.nil_prefix
    refine closes_cons.mpr ⟨by omega, ?_⟩
    have := ih hcl
    rwa [show d + e + nesting c = d + nesting c + e by ring]

theorem uncut_append {depth : ℤ} {p s : List Char} (hp : Uncut depth p)
    (hs : Uncut (depth + level p) s) : Uncut depth (p ++ s) := by
  induction p generalizing depth with
  | nil => simpa using hs
  | cons c p ih =>
    rw [uncut_cons] at hp
    rw [List.cons_append, uncut_cons]
    refine ⟨hp.1, ih hp.2 ?_⟩
    rwa [level_cons, ← add_assoc] at hs

theorem uncut_of_closes {depth : ℤ} {s : List Char} (hd : 0 < depth) (h : Closes 0 s) :
    Uncut depth s := by
  intro p q hs
  have := h.2 p (hs ▸ List.prefix_append p _)
  omega

theorem closes_of_not_mem {s : List Char} (ho : '(' ∉ s) (hc : ')' ∉ s) : Closes 0 s := by
  have hlevel : ∀ p, p <+: s → level p = 0 := by
    intro p hp
    rw [level_eq, List.count_eq_zero_of_not_mem fun h => ho (hp.subset h),
      List.count_eq_zero_of_not_mem fun h => hc (hp.subset h)]
    rfl
  exact ⟨hlevel s List.prefix_rfl, fun p hp => by rw [hlevel p hp]; rfl⟩

theorem uncut_of_not_mem {depth : ℤ} {s : List Char} (h : ',' ∉ s) : Uncut depth s := by
  intro p q hs
  exact absurd (by rw [hs]; simp) h

theorem balanced_of_cut {p : List Char} {ps : List (List Char)} (hc : Cut 0 p ps)
    (hb : Closes 0 (joined (p :: ps))) : ∀ q ∈ p :: ps, Closes 0 q ∧ Uncut 0 q := by
  induction ps generalizing p with
  | nil =>
    intro q hq
    obtain rfl : q = p := by simpa using hq
    exact ⟨by simpa using hb, hc⟩
  | cons r ps ih =>
    obtain ⟨hu, hl, hr⟩ := hc
    rw [joined_cons_cons] at hb
    obtain ⟨hp, hs⟩ := closes_of_append (by omega) hb
    intro q hq
    rcases List.mem_cons.mp hq with rfl | hm
    · exact ⟨hp, hu⟩
    · exact ih hr hs q hm

/-! ## Members of a body -/

theorem dropEmptyLast_cases (ps : List (List Char)) :
    ps = dropEmptyLast ps ∨ ps = dropEmptyLast ps ++ [[]] := by
  induction ps with
  | nil => exact Or.inl rfl
  | cons p ps ih =>
    cases ps with
    | nil =>
      by_cases h : p = []
      · right
        simp [dropEmptyLast, h]
      · left
        simp [dropEmptyLast, h]
    | cons q ps =>
      rw [dropEmptyLast]
      rcases ih with h | h
      · left
        rw [← h]
      · right
        rw [List.cons_append, ← h]

theorem dropEmptyLast_concat (ps : List (List Char)) (p : List Char) :
    dropEmptyLast (ps ++ [p]) = if p = [] then ps else ps ++ [p] := by
  induction ps with
  | nil => by_cases h : p = [] <;> simp [dropEmptyLast, h]
  | cons q ps ih =>
    have hcons : dropEmptyLast (q :: (ps ++ [p])) = q :: dropEmptyLast (ps ++ [p]) := by
      cases ps <;> rfl
    rw [List.cons_append, hcons, ih]
    split <;> rfl

theorem dropEmptyLast_eq_self {ps : List (List Char)} (h : ∀ p ∈ ps, p ≠ []) :
    dropEmptyLast ps = ps := by
  rcases dropEmptyLast_cases ps with e | e
  · exact e.symm
  · exact absurd rfl (h [] (by rw [e]; simp))

theorem splitTopLevel_of_blank {b : List Char} (h : Blank b) : splitTopLevel b = [] := by
  simp [splitTopLevel, trim_eq_nil_iff.mpr h]

theorem splitTopLevel_of_not_blank {b : List Char} (h : ¬Blank b) :
    splitTopLevel b = (dropEmptyLast ((pieces 0 b).1 :: (pieces 0 b).2)).map trim := by
  have ht : trim b ≠ [] := fun e => h (trim_eq_nil_iff.mp e)
  simp [splitTopLevel, ht]

/-- A body is cut into its members, one comma at its end aside. -/
theorem splitTopLevel_joined {ps : List (List Char)} {b : List Char} (hne : ps ≠ [])
    (hb : b = joined ps ∨ b = joined ps ++ [','])
    (hw : ∀ p ∈ ps, Balanced p ∧ Whole p ∧ ¬Blank p) : splitTopLevel b = ps.map trim := by
  have hu : ∀ p ∈ ps, Uncut 0 p ∧ level p = 0 := by
    intro p hp
    obtain ⟨h1, h2, -⟩ := hw p hp
    exact ⟨whole_iff_uncut.mp h2, by simpa using (balanced_iff_closes.mp h1).1⟩
  have hnil : ∀ p ∈ ps, p ≠ [] := by
    rintro p hp rfl
    exact (hw [] hp).2.2 (by simp [Blank])
  obtain ⟨p, qs, rfl⟩ := List.exists_cons_of_ne_nil hne
  have hblank : ¬Blank b := by
    intro h
    refine (hw p (by simp)).2.2 fun c hc => h c ?_
    have hj : c ∈ joined (p :: qs) := by
      cases qs with
      | nil => simpa using hc
      | cons q qs => simp [hc]
    rcases hb with rfl | rfl
    · exact hj
    · simp [hj]
  rw [splitTopLevel_of_not_blank hblank]
  rcases hb with rfl | rfl
  · rw [pieces_joined hu, dropEmptyLast_eq_self hnil]
  · have hlast : ∀ q ∈ p :: (qs ++ [[]]), Uncut 0 q ∧ level q = 0 := by
      intro q hq
      rw [← List.cons_append, List.mem_append, List.mem_singleton] at hq
      rcases hq with h | rfl
      · exact hu q h
      · exact ⟨uncut_nil, rfl⟩
    rw [← joined_concat_nil hne, List.cons_append, pieces_joined hlast, ← List.cons_append,
      dropEmptyLast_concat, if_pos rfl]

/-- The members of a balanced body are balanced and whole, and joined they give the body. -/
theorem exists_of_splitTopLevel {b : List Char} (hb : Balanced b) (h : ¬Blank b) :
    ∃ ps, ps ≠ [] ∧ splitTopLevel b = ps.map trim ∧
      (b = joined ps ∨ b = joined ps ++ [',']) ∧ ∀ p ∈ ps, Balanced p ∧ Whole p := by
  have hj := joined_pieces 0 b
  have hcut := balanced_of_cut (cut_pieces 0 b) (by rw [hj]; exact balanced_iff_closes.mp hb)
  have hall : ∀ p ∈ (pieces 0 b).1 :: (pieces 0 b).2, Balanced p ∧ Whole p := by
    intro p hp
    exact ⟨balanced_iff_closes.mpr (hcut p hp).1, whole_iff_uncut.mpr (hcut p hp).2⟩
  have hcases := dropEmptyLast_cases ((pieces 0 b).1 :: (pieces 0 b).2)
  have hnil : b ≠ [] := by
    rintro rfl
    exact h (by simp [Blank])
  have hne : dropEmptyLast ((pieces 0 b).1 :: (pieces 0 b).2) ≠ [] := by
    intro e
    rcases hcases with k | k
    · simp [e] at k
    · rw [e, List.nil_append] at k
      rw [k] at hj
      exact hnil hj.symm
  refine ⟨_, hne, splitTopLevel_of_not_blank h, ?_, fun p hp => hall p (mem_of_mem_dropEmptyLast hp)⟩
  rcases hcases with k | k
  · left
    rw [← k, hj]
  · right
    rw [← joined_concat_nil hne, ← k, hj]

end Immittance.Expression
