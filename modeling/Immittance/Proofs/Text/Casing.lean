import Mathlib
import Immittance.Proofs.Decimal.Literal
import Immittance.Proofs.Text.Trim
import Immittance.Text.Case

/-!
# Changes of case

A change of case turns basic letters into their other case and touches nothing else. Blanks, digits
and marks are the same after it, so a text is trimmed, put into one case and read as a numeral the
same way before and after.
-/

set_option autoImplicit false

namespace Immittance.Text

def Recasing (g : Char → Char) : Prop := ∀ c, (g c).toLower = c.toLower

theorem recasing_toLower : Recasing Char.toLower := Char.toLower_toLower_eq_toLower

theorem recasing_toUpper : Recasing Char.toUpper := Char.toLower_toUpper_eq_toLower

namespace Recasing

variable {g : Char → Char} (hg : Recasing g)
include hg

theorem isAlpha_eq (c : Char) : (g c).isAlpha = c.isAlpha := by
  rw [← Char.isAlpha_toLower_eq_isAlpha, hg, Char.isAlpha_toLower_eq_isAlpha]

theorem toUpper_eq (c : Char) : (g c).toUpper = c.toUpper := by
  rw [← Char.toUpper_toLower_eq_toUpper, hg, Char.toUpper_toLower_eq_toUpper]

theorem eq_self {c : Char} (h : c.isAlpha = false) : g c = c := by
  have hlower : ∀ d : Char, d.isAlpha = false → d.toLower = d := by
    intro d hd
    apply Char.toLower_eq_of_not_isUpper
    simp_all [Char.isAlpha]
  have hgc := hg c
  rwa [hlower c h, hlower (g c) ((hg.isAlpha_eq c).trans h)] at hgc

theorem apply_eq {β : Type} {f : Char → β} {b : β} (hf : ∀ c : Char, c.isAlpha = true → f c = b)
    (c : Char) : f (g c) = f c := by
  cases h : c.isAlpha with
  | false => rw [hg.eq_self h]
  | true => rw [hf c h, hf (g c) ((hg.isAlpha_eq c).trans h)]

theorem eq_iff {m : Char} (hm : m.isAlpha = false) (c : Char) : g c = m ↔ c = m := by
  refine iff_of_eq (hg.apply_eq (f := (· = m)) (b := False) (fun d hd => ?_) c)
  have hne : d ≠ m := by
    rintro rfl
    rw [hm] at hd
    cases hd
  exact eq_false hne

end Recasing

/-! ## Letters -/

theorem toNat_of_isAlpha {c : Char} (h : c.isAlpha = true) :
    65 ≤ c.toNat ∧ c.toNat ≤ 90 ∨ 97 ≤ c.toNat ∧ c.toNat ≤ 122 := by
  have hcases : c.isUpper = true ∨ c.isLower = true := by simpa [Char.isAlpha] using h
  simpa [Char.isUpper, Char.isLower, UInt32.le_iff_toNat_le] using hcases

theorem lt_of_isAlpha {c : Char} (h : c.isAlpha = true) : c.toNat < 0x80 := by
  have := toNat_of_isAlpha h
  omega

theorem forall_isAlpha {P : Char → Prop}
    (h : ∀ n < 0x80, (Char.ofNat n).isAlpha = true → P (Char.ofNat n)) (c : Char)
    (hc : c.isAlpha = true) : P c := by
  have := h c.toNat (lt_of_isAlpha hc)
  rw [Char.ofNat_toNat] at this
  exact this hc

theorem isBlank_of_isAlpha : ∀ c : Char, c.isAlpha = true → isBlank c = false :=
  forall_isAlpha (by decide +kernel)

theorem digitValue?_of_isAlpha : ∀ c : Char, c.isAlpha = true → digitValue? c = none :=
  forall_isAlpha (by decide +kernel)

theorem not_ignorable_of_isAlpha {c : Char} (hc : c.isAlpha = true) :
    inRanges caseIgnorable c = false := by
  have htable : caseIgnorable.all (fun r => r.2 < 65 ∨ 90 < r.1 ∧ r.2 < 97 ∨ 122 < r.1) = true := by
    decide +kernel
  have hnat := toNat_of_isAlpha hc
  rw [inRanges, List.any_eq_false]
  intro r hr
  have := List.all_eq_true.mp htable r hr
  simp only [decide_eq_true_eq] at this ⊢
  omega

theorem cased_of_isAlpha {c : Char} (hc : c.isAlpha = true) : inRanges cased c = true := by
  rw [inRanges, List.any_eq_true]
  rcases toNat_of_isAlpha hc with h | h
  · exact ⟨(65, 90), by decide, by simpa using h⟩
  · exact ⟨(97, 122), by decide, by simpa using h⟩

/-! ## Texts -/

section
variable {g : Char → Char}

theorem dropWhile_map {p : Char → Bool} (hp : ∀ c, p (g c) = p c) (s : List Char) :
    (s.map g).dropWhile p = (s.dropWhile p).map g := by
  rw [List.dropWhile_map, show p ∘ g = p from funext hp]

theorem takeWhile_map {p : Char → Bool} (hp : ∀ c, p (g c) = p c) (s : List Char) :
    (s.map g).takeWhile p = (s.takeWhile p).map g := by
  rw [List.takeWhile_map, show p ∘ g = p from funext hp]

end

namespace Recasing

variable {g : Char → Char} (hg : Recasing g)
include hg

theorem isBlank_eq (c : Char) : isBlank (g c) = isBlank c := hg.apply_eq isBlank_of_isAlpha c

theorem digitValue?_eq (c : Char) : digitValue? (g c) = digitValue? c :=
  hg.apply_eq digitValue?_of_isAlpha c

theorem isDigit_eq (c : Char) : isDigit (g c) = isDigit c := by
  rw [isDigit, hg.digitValue?_eq, isDigit]

theorem trim_map (s : List Char) : trim (s.map g) = (trim s).map g := by
  rw [trim, trimEnd, trimStart, dropWhile_map hg.isBlank_eq, ← List.map_reverse,
    dropWhile_map hg.isBlank_eq, ← List.map_reverse, trim, trimEnd, trimStart]

/-! ## One case -/

theorem upper_map (s : List Char) : upper (s.map g) = upper s := by
  have hchar : ∀ c, upperChar (g c) = upperChar c := by
    intro c
    cases h : c.isAlpha with
    | false => rw [hg.eq_self h]
    | true =>
      have hgc := lt_of_isAlpha ((hg.isAlpha_eq c).trans h)
      rw [upperChar, if_pos hgc, upperChar, if_pos (lt_of_isAlpha h), hg.toUpper_eq]
  rw [upper, List.flatMap_map, upper, funext hchar]

theorem metByCase_map (s : List Char) : metByCase (s.map g) = metByCase s := by
  have hignored : ∀ c, inRanges caseIgnorable (g c) = inRanges caseIgnorable c :=
    hg.apply_eq fun c hc => not_ignorable_of_isAlpha hc
  have hcased : ∀ c, inRanges cased (g c) = inRanges cased c :=
    hg.apply_eq fun c hc => cased_of_isAlpha hc
  rw [metByCase, List.find?_map, metByCase]
  simp only [Function.comp_def, hignored]
  cases s.find? fun c => !inRanges caseIgnorable c with
  | none => rfl
  | some c => exact hcased c

theorem lowerFrom_map (before s : List Char) :
    lowerFrom (before.map g) (s.map g) = lowerFrom before s := by
  induction s generalizing before with
  | nil => rfl
  | cons c s ih =>
    have hchar : lowerChar (before.map g) (g c) (s.map g) = lowerChar before c s := by
      cases h : c.isAlpha with
      | false => rw [lowerChar, hg.eq_self h, hg.metByCase_map, hg.metByCase_map, lowerChar]
      | true =>
        have hgc := lt_of_isAlpha ((hg.isAlpha_eq c).trans h)
        rw [lowerChar, if_pos hgc, lowerChar, if_pos (lt_of_isAlpha h), hg]
    have htail := ih (c :: before)
    rw [List.map_cons] at htail
    rw [List.map_cons, lowerFrom, hchar, htail, lowerFrom]

theorem lower_map (s : List Char) : lower (s.map g) = lower s := hg.lowerFrom_map [] s

end Recasing

/-! ## Letters in upper case -/

theorem toNat_ofNat_cases (n : ℕ) : (Char.ofNat n).toNat = n ∨ (Char.ofNat n).toNat = 0 := by
  by_cases h : n.isValidChar
  · left
    rw [Char.ofNat, dif_pos h]
    rfl
  · right
    rw [Char.ofNat, dif_neg h]
    rfl

/-- A table leads no character beyond the basic ones to a given basic one, if no longer form begins
with it and no run meets it. -/
theorem mapCase_ne {runs : List CaseRun} {long : List (ℕ × List ℕ)} {c m : Char}
    (hm : 0 < m.toNat ∧ m.toNat < 0x80) (hc : 0x80 ≤ c.toNat)
    (hlong : long.all (fun l => l.2.head?.any (Char.ofNat · != m)) = true)
    (hruns : runs.all (fun r => r.last < 0x80 ∨ (m.toNat : ℤ) < r.first + r.shift ∨
      r.last + r.shift < m.toNat) = true) : ∃ d t, mapCase runs long c = d :: t ∧ d ≠ m := by
  rw [mapCase]
  cases hl : long.find? (·.1 == c.toNat) with
  | some l =>
    have hhead := List.all_eq_true.mp hlong l (List.mem_of_find?_eq_some hl)
    obtain ⟨n, form⟩ := l
    cases form with
    | nil => simp at hhead
    | cons k ks => exact ⟨Char.ofNat k, ks.map Char.ofNat, rfl, by simpa using hhead⟩
  | none =>
    cases hr : runs.find? (·.contains c.toNat) with
    | some r =>
      refine ⟨_, [], rfl, ?_⟩
      rintro rfl
      have hrun := List.all_eq_true.mp hruns r (List.mem_of_find?_eq_some hr)
      have hin := List.find?_some hr
      simp only [CaseRun.contains, Bool.and_eq_true, decide_eq_true_eq] at hin hrun
      have hnat := toNat_ofNat_cases ((c.toNat : ℤ) + r.shift).toNat
      omega
    | none =>
      refine ⟨c, [], rfl, ?_⟩
      rintro rfl
      omega

theorem toUpper_of_le {c : Char} (h : 0x80 ≤ c.toNat) : c.toUpper = c := by
  apply Char.toUpper_eq_of_not_isLower
  intro hlower
  have halpha : c.isAlpha = true := by simp [Char.isAlpha, hlower]
  have := lt_of_isAlpha halpha
  omega

theorem upper_eq_map {s : List Char} (h : ∀ c ∈ s, c.toNat < 0x80) : upper s = s.map Char.toUpper := by
  induction s with
  | nil => rfl
  | cons c s ih =>
    have htail := ih fun d hd => h d (by simp [hd])
    rw [upper, List.flatMap_cons, ← upper, htail, upperChar, if_pos (h c (by simp))]
    rfl

theorem lowerFrom_append {s : List Char} (h : ∀ c ∈ s, c.toNat < 0x80) (before t : List Char) :
    lowerFrom before (s ++ t) = s.map Char.toLower ++ lowerFrom (s.reverse ++ before) t := by
  induction s generalizing before with
  | nil => rfl
  | cons c s ih =>
    have hc := h c (by simp)
    rw [List.cons_append, lowerFrom, lowerChar, if_pos hc, ih fun d hd => h d (by simp [hd])]
    simp

theorem lower_eq_map {s : List Char} (h : ∀ c ∈ s, c.toNat < 0x80) : lower s = s.map Char.toLower := by
  have hs := lowerFrom_append h [] []
  rwa [List.append_nil, lowerFrom, List.append_nil] at hs

end Immittance.Text

namespace Immittance.Decimal

open Text

variable {g : Char → Char}

/-! ## Numerals -/

theorem splitSign_map (hg : Recasing g) (s : List Char) :
    splitSign (s.map g) = ((splitSign s).1, (splitSign s).2.map g) := by
  have hplus := hg.eq_self (c := '+') rfl
  have hminus := hg.eq_self (c := '-') rfl
  fun_cases splitSign s with
  | case1 t => rw [List.map_cons, hminus, splitSign]
  | case2 t => rw [List.map_cons, hplus, splitSign]
  | case3 s hm hp =>
    apply splitSign_unsigned
    intro t
    constructor
    · intro h
      obtain ⟨c, u, rfl, hc, -⟩ := List.map_eq_cons_iff.mp h
      exact hp u (by rw [(hg.eq_iff rfl c).mp hc])
    · intro h
      obtain ⟨c, u, rfl, hc, -⟩ := List.map_eq_cons_iff.mp h
      exact hm u (by rw [(hg.eq_iff rfl c).mp hc])

theorem splitFraction_map (hg : Recasing g) (s : List Char) :
    splitFraction (s.map g) = ((splitFraction s).1.map g, (splitFraction s).2.map g) := by
  have hpoint := hg.eq_self (c := '.') rfl
  fun_cases splitFraction s with
  | case1 t =>
    rw [List.map_cons, hpoint, splitFraction, takeWhile_map hg.isDigit_eq, dropWhile_map hg.isDigit_eq]
  | case2 s hp =>
    apply splitFraction_of_not_point
    intro t h
    obtain ⟨c, u, rfl, hc, -⟩ := List.map_eq_cons_iff.mp h
    exact hp u (by rw [(hg.eq_iff rfl c).mp hc])

theorem digitsValue_map (hg : Recasing g) (ds : List Char) :
    digitsValue (ds.map g) = digitsValue ds := by
  simp only [digitsValue, List.foldl_map, hg.digitValue?_eq]

theorem all_isDigit_map (hg : Recasing g) (ds : List Char) :
    (ds.map g).all isDigit = ds.all isDigit := by
  simp only [List.all_map, Function.comp_def, hg.isDigit_eq]

theorem mark_iff (c : Char) : c = 'e' ∨ c = 'E' ↔ c.toLower = 'e' := by
  constructor
  · rintro (rfl | rfl) <;> rfl
  · intro h
    have hc : c.isAlpha = true := by
      rw [← Char.isAlpha_toLower_eq_isAlpha, h]
      rfl
    exact forall_isAlpha (P := fun c => c.toLower = 'e' → c = 'e' ∨ c = 'E') (by decide +kernel) c hc h

theorem readExponent?_map (hg : Recasing g) (s : List Char) :
    readExponent? (s.map g) = readExponent? s := by
  cases s with
  | nil => rfl
  | cons c s =>
    simp only [List.map_cons, readExponent?, mark_iff, hg c, splitSign_map hg, List.isEmpty_map,
      all_isDigit_map hg, digitsValue_map hg]

theorem read?_map (hg : Recasing g) (s : List Char) : read? (s.map g) = read? s := by
  simp only [read?, splitSign_map hg, takeWhile_map hg.isDigit_eq, dropWhile_map hg.isDigit_eq,
    splitFraction_map hg, readExponent?_map hg, ← List.map_append, digitsValue_map hg,
    List.isEmpty_map, List.length_map]

end Immittance.Decimal
