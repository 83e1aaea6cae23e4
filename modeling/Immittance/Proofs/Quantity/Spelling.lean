import Mathlib
import Immittance.Quantity.Formula

/-!
# What spelling leaves alone

A text without commas, carets, percent signs and blanks, in which no word begins behind a number, is
spelled as it stands. Of two such texts with one space between them the space becomes a product sign.
-/

set_option autoImplicit false

namespace Immittance.Formula

open Text

structure PlainChar (c : Char) : Prop where
  percent : c ≠ '%'
  comma : c ≠ ','
  caret : c ≠ '^'
  blank : isBlank c = false

def PlainText (s : List Char) : Prop := ∀ c ∈ s, PlainChar c

def Unglued : List Char → Prop
  | [] => True
  | c :: s => (c.isDigit = true ∨ c = '.' → beginsWord s = false) ∧ Unglued s

theorem plainText_append {s t : List Char} : PlainText (s ++ t) ↔ PlainText s ∧ PlainText t :=
  List.forall_mem_append

/-! ## Replacements and divisions -/

theorem replace_self {c : Char} {t s : List Char} (h : ∀ d ∈ s, d ≠ c) : replace c t s = s := by
  rw [replace]
  induction s with
  | nil => rfl
  | cons d s ih =>
    obtain ⟨hd, hs⟩ := List.forall_mem_cons.mp h
    rw [List.flatMap_cons, if_neg hd, ih hs, List.singleton_append]

theorem spellPer_append {s : List Char} (h : PlainText s) (t : List Char) :
    spellPer (s ++ t) = s ++ spellPer t := by
  induction s with
  | nil => rfl
  | cons c s ih =>
    obtain ⟨hc, hs⟩ := List.forall_mem_cons.mp h
    rw [List.cons_append, spellPer, ih hs, List.cons_append]
    rintro u rfl
    exact absurd hc.blank (by decide)

theorem spellPer_self {s : List Char} (h : PlainText s) : spellPer s = s := by
  have := spellPer_append h []
  rwa [spellPer, List.append_nil] at this

theorem spellPer_space {s : List Char} (h : PlainText s) : spellPer (' ' :: s) = ' ' :: s := by
  rw [spellPer, spellPer_self h]
  rintro u - rfl
  exact absurd (h ' ' (by simp)).blank (by decide)

/-! ## Blanks -/

theorem head?_isBlank {s : List Char} (h : PlainText s) : (s.head?.map isBlank).getD false = false := by
  cases s with
  | nil => rfl
  | cons c s => exact (h c List.mem_cons_self).blank

theorem spellBlanks_self {s : List Char} (h : PlainText s) (joined : Bool) :
    spellBlanks joined s = s := by
  induction s generalizing joined with
  | nil => rfl
  | cons c s ih =>
    obtain ⟨hc, hs⟩ := List.forall_mem_cons.mp h
    rw [spellBlanks, hc.blank, if_neg Bool.false_ne_true, head?_isBlank hs, Bool.and_false,
      if_neg Bool.false_ne_true, ih hs]

theorem spellBlanks_space {s t : List Char} (hs : PlainText s) (ht : PlainText t) :
    spellBlanks false (s ++ ' ' :: t) = s ++ ' ' :: t := by
  induction s with
  | nil =>
    have hblank : isBlank ' ' = true := by decide
    rw [List.nil_append, spellBlanks, if_pos hblank, if_neg Bool.false_ne_true, spellBlanks_self ht]
  | cons c s ih =>
    obtain ⟨hc, hs⟩ := List.forall_mem_cons.mp hs
    rw [List.cons_append, spellBlanks, hc.blank, if_neg Bool.false_ne_true, ih hs]
    split
    · next h =>
      -- the space that joins is the one in front of `t`
      cases s with
      | nil => rw [List.nil_append, spellBlanks, if_pos (by decide), if_pos rfl, spellBlanks_self ht]
      | cons d s =>
        rw [Bool.and_eq_true] at h
        have hd := (hs d List.mem_cons_self).blank
        rw [List.cons_append, List.head?_cons, Option.map_some, Option.getD_some, hd] at h
        exact absurd h.2 Bool.false_ne_true
    · rfl

/-! ## Numbers in front of words -/

theorem Unglued.behind {s t : List Char} {c : Char} (h : Unglued (s ++ c :: t))
    (hc : c.isDigit = true ∨ c = '.') : beginsWord t = false := by
  induction s with
  | nil => exact h.1 hc
  | cons d s ih => exact ih h.2

theorem gluedNumber?_of_unglued {s : List Char} (h : Unglued s) : gluedNumber? s = none := by
  have hcut := List.takeWhile_append_dropWhile (p := Char.isDigit) (l := s)
  rw [gluedNumber?]
  by_cases hw : s.takeWhile Char.isDigit = []
  · rw [hw]
    rfl
  · obtain ⟨ws, c, hws⟩ := List.eq_nil_or_concat' (s.takeWhile Char.isDigit) |>.resolve_left hw
    have hc : c.isDigit = true := List.mem_takeWhile_imp (l := s) (by rw [hws]; simp)
    rw [List.isEmpty_eq_false_iff.mpr hw, if_neg Bool.false_ne_true]
    split
    · next t hr =>
      have hcut' := List.takeWhile_append_dropWhile (p := Char.isDigit) (l := t)
      rw [if_neg]
      rw [Bool.not_eq_true]
      rcases List.eq_nil_or_concat' (t.takeWhile Char.isDigit) with hf | ⟨fs, d, hf⟩
      · rw [← hcut, hr, ← hcut', hf, List.nil_append] at h
        exact h.behind (Or.inr rfl)
      · have hd : d.isDigit = true := List.mem_takeWhile_imp (l := t) (by rw [hf]; simp)
        rw [← hcut, hr, ← hcut', hf, List.append_assoc, List.singleton_append, ← List.cons_append,
          ← List.append_assoc] at h
        exact h.behind (Or.inl hd)
    · rw [if_neg]
      rw [Bool.not_eq_true]
      rw [← hcut, hws, List.append_assoc, List.singleton_append] at h
      exact h.behind (Or.inl hc)

theorem spellGlued_of_unglued (fuel : ℕ) (inWord : Bool) {s : List Char} (h : Unglued s) :
    spellGlued fuel inWord s = s := by
  induction fuel generalizing inWord s with
  | zero => rw [spellGlued]
  | succ fuel ih =>
    cases s with
    | nil => rw [spellGlued]; simp
    | cons c s =>
      rw [spellGlued, gluedNumber?_of_unglued h, ite_self, ih (isWordChar c) h.2]

/-! ## Gaps -/

theorem spellGaps_self {s : List Char} (h : PlainText s) : spellGaps s = s := by
  induction s with
  | nil => rw [spellGaps]
  | cons c s ih =>
    obtain ⟨-, hs⟩ := List.forall_mem_cons.mp h
    rw [spellGaps, head?_isBlank hs, Bool.and_false, Bool.false_and, if_neg Bool.false_ne_true, ih hs]

/-- A space between two words becomes a product sign. -/
theorem spellGaps_space {s t : List Char} (hs : PlainText s) (ht : PlainText t)
    (hlast : s.getLast?.any isWordChar = true) (hfirst : t.head?.any isWordChar = true) :
    spellGaps (s ++ ' ' :: t) = s ++ '*' :: t := by
  have hspace : isBlank ' ' = true := by decide
  have hdrop : (' ' :: t).dropWhile isBlank = t := by
    rw [List.dropWhile_cons_of_pos hspace]
    cases t with
    | nil => rfl
    | cons d t => rw [List.dropWhile_cons_of_neg (by simp [(ht d List.mem_cons_self).blank])]
  induction s with
  | nil => exact absurd hlast (by decide)
  | cons c s ih =>
    obtain ⟨-, hs⟩ := List.forall_mem_cons.mp hs
    rw [List.cons_append, spellGaps]
    cases s with
    | nil =>
      have hc : isWordChar c = true := hlast
      obtain ⟨d, hd, hw⟩ : ∃ d, t.head? = some d ∧ isWordChar d = true := by
        simpa [Option.any_eq_true] using hfirst
      simp [hdrop, spellGaps_self ht, hc, hd, hw, hspace]
    | cons e s =>
      have he := (hs e List.mem_cons_self).blank
      rw [if_neg (by simp [he]), ih hs (by simpa using hlast)]
      rfl

/-! ## Texts -/

theorem spell_self {s : List Char} (h : PlainText s) (hg : Unglued s) : spell s = s := by
  rw [spell, replace_self fun c hc => (h c hc).percent, replace_self fun c hc => (h c hc).comma]
  rw [spellPer_self h, spellBlanks_self h, spellGlued_of_unglued _ _ hg, spellGaps_self h,
    replace_self fun c hc => (h c hc).caret]

/-- Two words side by side are spelled as a product. -/
theorem spell_beside {s t : List Char} (hs : PlainText s) (ht : PlainText t)
    (hlast : s.getLast?.any isWordChar = true) (hfirst : t.head?.any isWordChar = true)
    (hg : Unglued (s ++ ' ' :: t)) : spell (s ++ ' ' :: t) = s ++ '*' :: t := by
  have hbeside : ∀ (p : Char → Prop) (d : Char), p d → (∀ c, PlainChar c → p c) →
      ∀ c ∈ s ++ d :: t, p c := fun p d hd h =>
    List.forall_mem_append.mpr ⟨fun c hc => h c (hs c hc),
      List.forall_mem_cons.mpr ⟨hd, fun c hc => h c (ht c hc)⟩⟩
  rw [spell, replace_self (hbeside _ ' ' (by decide) fun _ h => h.percent),
    replace_self (hbeside _ ' ' (by decide) fun _ h => h.comma)]
  rw [spellPer_append hs, spellPer_space ht, spellBlanks_space hs ht,
    spellGlued_of_unglued _ _ hg, spellGaps_space hs ht hlast hfirst,
    replace_self (hbeside _ '*' (by decide) fun _ h => h.caret)]

end Immittance.Formula
