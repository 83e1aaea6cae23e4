import Mathlib
import Immittance.Text.Blank

/-!
# Trimming

A text is its trimmed form between two blank ones, and blanks at the ends never change that form.
Around a character that is not blank the two ends are trimmed apart from each other.
-/

set_option autoImplicit false

namespace Immittance.Text

def Blank (s : List Char) : Prop := ∀ c ∈ s, isBlank c = true

theorem blank_nil : Blank [] := by
  simp [Blank]

theorem blank_space : Blank [' '] := by
  simp [Blank, isBlank, blanks]

theorem blank_append {s t : List Char} : Blank (s ++ t) ↔ Blank s ∧ Blank t := by
  simp [Blank, or_imp, forall_and]

theorem trimStart_append {u : List Char} (h : Blank u) (s : List Char) :
    trimStart (u ++ s) = trimStart s :=
  List.dropWhile_append_of_pos h

theorem trimEnd_append {v : List Char} (h : Blank v) (s : List Char) :
    trimEnd (s ++ v) = trimEnd s := by
  have hr : ∀ c ∈ v.reverse, isBlank c = true := fun c hc => h c (List.mem_reverse.mp hc)
  rw [trimEnd, List.reverse_append, List.dropWhile_append_of_pos hr, trimEnd]

theorem trimStart_append_cons (s t : List Char) {c : Char} (hc : isBlank c = false) :
    trimStart (s ++ c :: t) = trimStart s ++ c :: t := by
  induction s with
  | nil => simp [trimStart, hc]
  | cons d s ih =>
    by_cases hd : isBlank d = true
    · simpa [trimStart, hd] using ih
    · simp [trimStart, hd]

theorem trimEnd_append_cons (s t : List Char) {c : Char} (hc : isBlank c = false) :
    trimEnd (s ++ c :: t) = s ++ c :: trimEnd t := by
  have h := trimStart_append_cons t.reverse s.reverse hc
  rw [trimEnd, show (s ++ c :: t).reverse = t.reverse ++ c :: s.reverse by simp]
  change (trimStart (t.reverse ++ c :: s.reverse)).reverse = _
  rw [h]
  simp [trimEnd, trimStart]

theorem trim_append_cons (s t : List Char) {c : Char} (hc : isBlank c = false) :
    trim (s ++ c :: t) = trimStart s ++ c :: trimEnd t := by
  rw [trim, trimStart_append_cons s t hc, trimEnd_append_cons _ t hc]

theorem exists_trimStart (s : List Char) : ∃ u, Blank u ∧ s = u ++ trimStart s := by
  refine ⟨s.takeWhile isBlank, ?_, (List.takeWhile_append_dropWhile).symm⟩
  intro c hc
  exact List.mem_takeWhile_imp hc

theorem exists_trimEnd (s : List Char) : ∃ v, Blank v ∧ s = trimEnd s ++ v := by
  obtain ⟨u, hu, hs⟩ := exists_trimStart s.reverse
  refine ⟨u.reverse, fun c hc => hu c (List.mem_reverse.mp hc), ?_⟩
  have h := congrArg List.reverse hs
  rw [List.reverse_reverse, List.reverse_append] at h
  exact h

theorem exists_trim (s : List Char) : ∃ u v, Blank u ∧ Blank v ∧ s = u ++ (trim s ++ v) := by
  obtain ⟨u, hu, hs⟩ := exists_trimStart s
  obtain ⟨v, hv, ht⟩ := exists_trimEnd (trimStart s)
  exact ⟨u, v, hu, hv, by rw [trim, ← ht, ← hs]⟩

theorem trimStart_eq_nil {s : List Char} (h : Blank s) : trimStart s = [] :=
  List.dropWhile_eq_nil_iff.mpr h

theorem trim_append_blank {v : List Char} (h : Blank v) (s : List Char) :
    trim (s ++ v) = trim s := by
  by_cases hs : Blank s
  · rw [trim, trim, trimStart_eq_nil (blank_append.mpr ⟨hs, h⟩), trimStart_eq_nil hs]
  · obtain ⟨c, t, ht⟩ : ∃ c t, trimStart s = c :: t := by
      cases k : trimStart s with
      | nil => exact absurd (List.dropWhile_eq_nil_iff.mp k) hs
      | cons c t => exact ⟨c, t, rfl⟩
    have hv : trimStart (s ++ v) = trimStart s ++ v := by
      rw [trimStart, List.dropWhile_append, ← trimStart, ht]
      rfl
    rw [trim, hv, trimEnd_append h, trim]

theorem trim_blank_append {u : List Char} (h : Blank u) (s : List Char) :
    trim (u ++ s) = trim s := by
  rw [trim, trimStart_append h, trim]

theorem trim_between {u v : List Char} (hu : Blank u) (hv : Blank v) (s : List Char) :
    trim (u ++ (s ++ v)) = trim s := by
  rw [trim_blank_append hu, trim_append_blank hv]

theorem trim_trim (s : List Char) : trim (trim s) = trim s := by
  obtain ⟨u, v, hu, hv, hs⟩ := exists_trim s
  conv_rhs => rw [hs, trim_between hu hv]

theorem infix_trim (s : List Char) : trim s <:+: s := by
  obtain ⟨u, v, -, -, hs⟩ := exists_trim s
  exact ⟨u, v, by rw [List.append_assoc]; exact hs.symm⟩

theorem trim_eq_nil_iff {s : List Char} : trim s = [] ↔ Blank s := by
  constructor
  · intro h
    obtain ⟨u, v, hu, hv, hs⟩ := exists_trim s
    rw [hs, h]
    exact blank_append.mpr ⟨hu, by simpa using hv⟩
  · intro h
    rw [trim, trimStart_eq_nil h]
    rfl

theorem trim_trimStart (s : List Char) : trim (trimStart s) = trim s := by
  obtain ⟨u, hu, hs⟩ := exists_trimStart s
  conv_rhs => rw [hs, trim_blank_append hu]

theorem trim_trimEnd (s : List Char) : trim (trimEnd s) = trim s := by
  obtain ⟨v, hv, hs⟩ := exists_trimEnd s
  conv_rhs => rw [hs, trim_append_blank hv]

/-- A text without blanks at its ends is its own trimmed form. -/
theorem trim_eq_self {s : List Char} (h : ∀ c ∈ s, isBlank c = false) : trim s = s := by
  obtain ⟨u, v, hu, hv, hs⟩ := exists_trim s
  have hempty : ∀ w, Blank w → (∀ c ∈ w, c ∈ s) → w = [] := by
    intro w hw hsub
    cases w with
    | nil => rfl
    | cons c w => simpa [hw c (by simp)] using h c (hsub c (by simp))
  have hu' := hempty u hu (fun c hc => by rw [hs]; simp [hc])
  have hv' := hempty v hv (fun c hc => by rw [hs]; simp [hc])
  rw [hu', hv', List.nil_append, List.append_nil] at hs
  exact hs.symm

/-! ## The first of a character -/

theorem takeWhile_ne {c : Char} {s : List Char} (h : c ∉ s) (t : List Char) :
    (s ++ c :: t).takeWhile (· != c) = s := by
  have hs : ∀ d ∈ s, (d != c) = true := by
    intro d hd
    have : d ≠ c := fun e => h (e ▸ hd)
    simpa using this
  rw [List.takeWhile_append_of_pos hs]
  simp

theorem dropWhile_ne {c : Char} {s : List Char} (h : c ∉ s) (t : List Char) :
    (s ++ c :: t).dropWhile (· != c) = c :: t := by
  have hs : ∀ d ∈ s, (d != c) = true := by
    intro d hd
    have : d ≠ c := fun e => h (e ▸ hd)
    simpa using this
  rw [List.dropWhile_append_of_pos hs]
  simp

theorem dropWhile_ne_eq_nil {c : Char} {s : List Char} (h : c ∉ s) :
    s.dropWhile (· != c) = [] := by
  refine List.dropWhile_eq_nil_iff.mpr fun d hd => ?_
  have : d ≠ c := fun e => h (e ▸ hd)
  simpa using this

/-- A text with a character in it is cut at the first one. -/
theorem exists_first {c : Char} {s : List Char} (h : c ∈ s) : ∃ u t, c ∉ u ∧ s = u ++ c :: t := by
  induction s with
  | nil => simp at h
  | cons d s ih =>
    by_cases hd : d = c
    · exact ⟨[], s, by simp, by rw [hd, List.nil_append]⟩
    · have hc : c ∈ s := by
        rcases List.mem_cons.mp h with e | e
        · exact absurd e.symm hd
        · exact e
      obtain ⟨u, t, hu, rfl⟩ := ih hc
      refine ⟨d :: u, t, ?_, by simp⟩
      intro hm
      rcases List.mem_cons.mp hm with e | e
      · exact hd e.symm
      · exact hu e

theorem count_of_blank {c : Char} (hc : isBlank c = false) {s : List Char} (h : Blank s) :
    s.count c = 0 := by
  refine List.count_eq_zero_of_not_mem fun hm => ?_
  rw [h c hm] at hc
  exact absurd hc (by decide)

theorem mem_trim {c : Char} (hc : isBlank c = false) {s : List Char} : c ∈ trim s ↔ c ∈ s := by
  obtain ⟨u, v, hu, hv, hs⟩ := exists_trim s
  have hnot : ∀ w, Blank w → c ∉ w := by
    intro w hw hm
    rw [hw c hm] at hc
    exact absurd hc (by decide)
  conv_rhs => rw [hs]
  simp [hnot u hu, hnot v hv]

end Immittance.Text
