import Mathlib
import Immittance.Quantity.Hertz
import Immittance.Proofs.Decimal.RoundTrip
import Immittance.Proofs.Decimal.Arithmetic
import Immittance.Proofs.Quantity.Spelling

/-!
# Numbers in formulas

The digits of a whole number that is not too long are one number for a formula, and so is the shortest
text of a finite double, up to its minus. Nothing of what follows them is taken for a part of them, be
it a unit or the end of the formula.
-/

set_option autoImplicit false

namespace Immittance

open Text Decimal

namespace Formula

def AsciiDigits (s : List Char) : Prop := s ≠ [] ∧ ∀ c ∈ s, c.isDigit = true

def IsPoint (p : List Char) : Prop := p = [] ∨ ∃ fs, AsciiDigits fs ∧ p = '.' :: fs

def IsScale (x : List Char) : Prop :=
  x = [] ∨ ∃ ds, AsciiDigits ds ∧ (x = 'e' :: '+' :: ds ∨ x = 'e' :: '-' :: ds)

structure Pieces (s ws p x : List Char) : Prop where
  eq : s = ws ++ (p ++ x)
  whole : AsciiDigits ws
  point : IsPoint p
  scale : IsScale x

theorem asciiDigits_toDigits (n : ℕ) : AsciiDigits (Nat.toDigits 10 n) :=
  ⟨by simp, fun _ hc => Nat.isDigit_of_mem_toDigits (by omega) (by omega) hc⟩

theorem AsciiDigits.allDigits {s : List Char} (h : AsciiDigits s) : AllDigits s := by
  intro c hc
  rw [isDigit, digitValue?_ascii (h.2 c hc)]
  rfl

theorem isDigit_of_mem_zeros {k : ℕ} {c : Char} (h : c ∈ List.replicate k '0') :
    c.isDigit = true := by
  rw [List.eq_of_mem_replicate h]
  rfl

theorem AsciiDigits.zeros_append {s : List Char} (h : AsciiDigits s) (k : ℕ) :
    AsciiDigits (List.replicate k '0' ++ s) :=
  ⟨by simp [h.1], List.forall_mem_append.mpr ⟨fun _ => isDigit_of_mem_zeros, h.2⟩⟩

theorem AsciiDigits.append_zeros {s : List Char} (h : AsciiDigits s) (k : ℕ) :
    AsciiDigits (s ++ List.replicate k '0') :=
  ⟨by simp [h.1], List.forall_mem_append.mpr ⟨h.2, fun _ => isDigit_of_mem_zeros⟩⟩

theorem AsciiDigits.cut {s : List Char} (h : AsciiDigits s) {k : ℕ} (hk : 0 < k)
    (hlt : k < s.length) : AsciiDigits (s.take k) ∧ AsciiDigits (s.drop k) :=
  ⟨⟨by simp [h.1, hk.ne'], fun c hc => h.2 c (List.mem_of_mem_take hc)⟩,
    ⟨by simp [hlt], fun c hc => h.2 c (List.mem_of_mem_drop hc)⟩⟩

/-! ## Splitting a number off -/

def Stops (t : List Char) : Prop := t = [] ∨ ∃ u, t = '*' :: u

theorem Stops.head {t : List Char} (h : Stops t) :
    ∀ c u, t = c :: u → c.isDigit = false ∧ c ≠ '_' := by
  rintro c u rfl
  rcases h with h | ⟨v, h⟩
  · cases h
  · rw [(List.cons.inj h).1]
    decide

theorem splitDigits_append {ds t : List Char} (hds : ∀ c ∈ ds, c.isDigit = true)
    (ht : ∀ c u, t = c :: u → c.isDigit = false ∧ c ≠ '_') : splitDigits (ds ++ t) = (ds, t) := by
  induction ds with
  | nil =>
    cases t with
    | nil => rfl
    | cons c u =>
      obtain ⟨hc, hne⟩ := ht c u rfl
      rw [List.nil_append, splitDigits, hc, if_neg Bool.false_ne_true]
      rintro d v rfl
      exact absurd rfl hne
  | cons c ds ih =>
    obtain ⟨hc, hds⟩ := List.forall_mem_cons.mp hds
    rw [List.cons_append, splitDigits, if_pos hc, ih hds]
    rintro d v rfl
    exact absurd hc (by decide)

theorem startsWithDigit_append {ds : List Char} (h : AsciiDigits ds) (t : List Char) :
    startsWithDigit (ds ++ t) = true := by
  obtain ⟨hne, hds⟩ := h
  cases ds with
  | nil => exact absurd rfl hne
  | cons c ds => exact hds c List.mem_cons_self

theorem splitExponent?_of_stops {t : List Char} (h : Stops t) : splitExponent? t = none := by
  rcases h with rfl | ⟨u, rfl⟩ <;> rfl

theorem IsScale.isExponent {x : List Char} (h : IsScale x) : IsExponent x := by
  rcases h with rfl | ⟨ds, hds, rfl | rfl⟩
  · exact Or.inl rfl
  · exact Or.inr ⟨'e', ['+'], ds, Or.inl rfl, by simp [IsSign], hds.1, hds.allDigits, rfl⟩
  · exact Or.inr ⟨'e', ['-'], ds, Or.inl rfl, by simp [IsSign], hds.1, hds.allDigits, rfl⟩

/-- An exponent is split off as a whole; its plus is dropped, which does not change what it says. -/
theorem splitExponent?_scale {x t : List Char} (hx : IsScale x) (hne : x ≠ []) (ht : Stops t) :
    ∃ e, splitExponent? (x ++ t) = some (e, t) ∧ IsExponent e ∧
      readExponent? e = readExponent? x := by
  rcases hx with rfl | ⟨ds, hds, rfl | rfl⟩
  · exact absurd rfl hne
  · have hplain := readExponent?_mark (Or.inl rfl) (Or.inl rfl) hds.1 hds.allDigits
    have hplus := readExponent?_mark (Or.inl rfl) (Or.inr (Or.inl rfl)) hds.1 hds.allDigits
    have he : IsExponent ('e' :: ds) :=
      Or.inr ⟨'e', [], ds, Or.inl rfl, Or.inl rfl, hds.1, hds.allDigits, rfl⟩
    refine ⟨'e' :: ds, ?_, he, hplain.trans hplus.symm⟩
    rw [List.cons_append, List.cons_append, splitExponent?, if_pos (Or.inl rfl)]
    dsimp only
    rw [startsWithDigit_append hds, if_pos rfl, splitDigits_append hds.2 ht.head]
  · refine ⟨'e' :: '-' :: ds, ?_, IsScale.isExponent (Or.inr ⟨ds, hds, Or.inr rfl⟩), rfl⟩
    rw [List.cons_append, List.cons_append, splitExponent?, if_pos (Or.inl rfl)]
    dsimp only
    rw [startsWithDigit_append hds, if_pos rfl, splitDigits_append hds.2 ht.head]

theorem IsScale.head {x t : List Char} (hx : IsScale x) (ht : Stops t) :
    ∀ c u, x ++ t = c :: u → c.isDigit = false ∧ c ≠ '_' := by
  rcases hx with rfl | ⟨ds, -, rfl | rfl⟩
  · exact ht.head
  all_goals
    intro c u h
    rw [← (List.cons.inj h).1]
    decide

theorem realNumber_congr {s u : List Char} (h : read? s = read? u) : realNumber s = realNumber u := by
  rw [realNumber, realNumber, h]

/-- A number that is not whole is read from its text, whatever follows it. -/
theorem splitNumber_real {s ws p x t : List Char} (h : Pieces s ws p x) (hreal : p ≠ [] ∨ x ≠ [])
    (ht : Stops t) : splitNumber (s ++ t) = (realNumber s, t) := by
  obtain ⟨rfl, hws, hp, hx⟩ := h
  have hsign : IsSign [] := Or.inl rfl
  rcases hp with rfl | ⟨fs, hfs, rfl⟩
  · obtain ⟨e, hsplit, he, hread⟩ := splitExponent?_scale hx (hreal.resolve_left (by simp)) ht
    have hnumber : read? (ws ++ e) = read? (ws ++ x) :=
      (read?_whole hsign hws.1 hws.allDigits he).trans
        (hread ▸ (read?_whole hsign hws.1 hws.allDigits hx.isExponent).symm)
    rw [List.nil_append, List.append_assoc, splitNumber, splitDigits_append hws.2 (hx.head ht)]
    dsimp only
    split
    · next u v hu =>
      rw [hu] at hsplit
      cases hsplit
    · rw [hsplit, ← realNumber_congr hnumber]
  · have hpoint : ∀ c u, '.' :: (fs ++ (x ++ t)) = c :: u → c.isDigit = false ∧ c ≠ '_' := by
      intro c u h
      rw [← (List.cons.inj h).1]
      decide
    have hcut : ws ++ ('.' :: fs ++ x) ++ t = ws ++ '.' :: (fs ++ (x ++ t)) := by simp
    rw [hcut, splitNumber, splitDigits_append hws.2 hpoint]
    simp only [startsWithDigit_append hfs, if_true, splitDigits_append hfs.2 (hx.head ht)]
    by_cases hne : x = []
    · rw [hne, List.nil_append, splitExponent?_of_stops ht, List.append_nil]
    · obtain ⟨e, hsplit, he, hread⟩ := splitExponent?_scale hx hne ht
      have hnumber : read? (ws ++ '.' :: (fs ++ e)) = read? (ws ++ '.' :: (fs ++ x)) :=
        (read?_point hsign (Or.inl hws.1) hws.allDigits hfs.allDigits he).trans
          (hread ▸ (read?_point hsign (Or.inl hws.1) hws.allDigits hfs.allDigits hx.isExponent).symm)
      rw [hsplit]
      dsimp only
      rw [List.append_assoc, List.cons_append, List.cons_append, realNumber_congr hnumber]

theorem head_toDigits_ne {n : ℕ} (hn : 0 < n) : (Nat.toDigits 10 n).head? ≠ some '0' := by
  induction n using Nat.strong_induction_on with
  | _ n ih =>
    by_cases h : n < 10
    · rw [Nat.toDigits_of_lt_base h]
      interval_cases n <;> decide
    · have hdiv := ih (n / 10) (by omega) (by omega)
      rw [Nat.toDigits_of_base_le (by omega) (by omega)]
      rwa [List.head?_append_of_ne_nil _ (by simp)]

theorem splitZeros_of_stops {t : List Char} (h : Stops t) : splitZeros t = ([], t) := by
  rcases h with rfl | ⟨u, rfl⟩ <;> rfl

/-- A whole number of not too many digits is read from its digits, whatever follows them. -/
theorem splitNumber_whole {n : ℕ} (hn : digitCount n ≤ longestWhole) {t : List Char} (ht : Stops t) :
    splitNumber (Nat.toDigits 10 n ++ t) = (.whole n, t) := by
  have hds := asciiDigits_toDigits n
  rw [splitNumber, splitDigits_append hds.2 ht.head]
  dsimp only
  split
  · rcases ht with h | ⟨v, h⟩ <;> cases h
  · rw [splitExponent?_of_stops ht]
    dsimp only
    split
    · next u hu =>
      rcases Nat.eq_zero_or_pos n with rfl | h0
      · rw [Nat.toDigits_zero, List.singleton_append] at hu
        rw [← (List.cons.inj hu).2, splitZeros_of_stops ht]
        rfl
      · have hhead := head_toDigits_ne h0
        rw [← List.head?_append_of_ne_nil _ hds.1, hu] at hhead
        exact absurd rfl hhead
    · have hlen : (Nat.toDigits 10 n).length = digitCount n := rfl
      rw [wholeNumber, hlen, if_neg (not_lt.mpr hn), digitsValue_toDigits]

/-! ## One number -/

structure IsNumber (s : List Char) (a : Amount) : Prop where
  begins : ∀ t, startsWithDigit (s ++ t) = true
  ends : s.getLast?.any isWordChar = true
  plain : PlainText s
  unglued : ∀ t, beginsWord t = false → Unglued t → Unglued (s ++ t)
  split : ∀ t, Stops t → splitNumber (s ++ t) = (a, t)

/-! ## The texts of numbers -/

theorem not_isAlpha_of_isDigit {c : Char} (h : c.isDigit = true) : c.isAlpha = false := by
  have hA : 'A'.val.toNat = 65 := rfl
  have ha : 'a'.val.toNat = 97 := rfl
  have h9 : '9'.val.toNat = 57 := rfl
  simp only [Char.isAlpha, Char.isUpper, Char.isLower, Char.isDigit, Bool.or_eq_false_iff,
    Bool.and_eq_true, Bool.and_eq_false_iff, decide_eq_true_eq, decide_eq_false_iff_not,
    UInt32.le_iff_toNat_le, ge_iff_le] at h ⊢
  omega

theorem isWordChar_of_isDigit {c : Char} (h : c.isDigit = true) : isWordChar c = true := by
  have hc : c.toNat < 0x80 := by
    have h9 : '9'.val.toNat = 57 := rfl
    simp only [Char.isDigit, Bool.and_eq_true, decide_eq_true_eq, UInt32.le_iff_toNat_le,
      ge_iff_le] at h
    show c.val.toNat < 0x80
    omega
  rw [isWordChar, if_pos hc, h, Bool.or_true]

theorem plainChar_of_isDigit {c : Char} (h : c.isDigit = true) : PlainChar c := by
  refine ⟨?_, ?_, ?_, ?_⟩
  · rintro rfl
    exact absurd h (by decide)
  · rintro rfl
    exact absurd h (by decide)
  · rintro rfl
    exact absurd h (by decide)
  · have hblanks : blanks.all (fun b => !b.isDigit) = true := by decide +kernel
    rw [isBlank, ← Bool.not_eq_true, List.contains_iff_mem]
    intro hmem
    have := List.all_eq_true.mp hblanks c hmem
    rw [h] at this
    exact Bool.false_ne_true this

theorem AsciiDigits.plainText {ds : List Char} (h : AsciiDigits ds) : PlainText ds :=
  fun c hc => plainChar_of_isDigit (h.2 c hc)

theorem plainChar_marks : PlainChar '.' ∧ PlainChar 'e' ∧ PlainChar '+' ∧ PlainChar '-' := by
  refine ⟨?_, ?_, ?_, ?_⟩ <;> exact ⟨by decide, by decide, by decide, by decide⟩

theorem Pieces.plainText {s ws p x : List Char} (h : Pieces s ws p x) : PlainText s := by
  obtain ⟨rfl, hws, hp, hx⟩ := h
  obtain ⟨hpoint, he, hplus, hminus⟩ := plainChar_marks
  refine plainText_append.mpr ⟨hws.plainText, plainText_append.mpr ⟨?_, ?_⟩⟩
  · rcases hp with rfl | ⟨fs, hfs, rfl⟩
    · exact fun c hc => absurd hc List.not_mem_nil
    · exact List.forall_mem_cons.mpr ⟨hpoint, hfs.plainText⟩
  · rcases hx with rfl | ⟨ds, hds, rfl | rfl⟩
    · exact fun c hc => absurd hc List.not_mem_nil
    · exact List.forall_mem_cons.mpr ⟨he, List.forall_mem_cons.mpr ⟨hplus, hds.plainText⟩⟩
    · exact List.forall_mem_cons.mpr ⟨he, List.forall_mem_cons.mpr ⟨hminus, hds.plainText⟩⟩

/-- A numeral ends in a digit. -/
theorem Pieces.ends {s ws p x : List Char} (h : Pieces s ws p x) :
    s.getLast?.any isWordChar = true := by
  obtain ⟨rfl, hws, hp, hx⟩ := h
  have key : ∀ {t ds : List Char}, AsciiDigits ds → (t ++ ds).getLast?.any isWordChar = true := by
    intro t ds hds
    obtain ⟨init, c, rfl⟩ := (List.eq_nil_or_concat' ds).resolve_left hds.1
    rw [← List.append_assoc, List.getLast?_concat]
    exact isWordChar_of_isDigit (hds.2 c (by simp))
  rcases hx with rfl | ⟨ds, hds, rfl | rfl⟩
  · rcases hp with rfl | ⟨fs, hfs, rfl⟩
    · rw [List.append_nil, List.append_nil]
      exact key (t := []) hws
    · have hcut : ws ++ ('.' :: fs ++ []) = (ws ++ ['.']) ++ fs := by simp
      rw [hcut]
      exact key hfs
  · have hcut : ws ++ (p ++ 'e' :: '+' :: ds) = (ws ++ (p ++ ['e', '+'])) ++ ds := by simp
    rw [hcut]
    exact key hds
  · have hcut : ws ++ (p ++ 'e' :: '-' :: ds) = (ws ++ (p ++ ['e', '-'])) ++ ds := by simp
    rw [hcut]
    exact key hds

def Wordless (s : List Char) : Prop := ∀ c ∈ s, c.isAlpha = false ∧ c ≠ '|'

theorem AsciiDigits.wordless {ds : List Char} (h : AsciiDigits ds) : Wordless ds := by
  intro c hc
  refine ⟨not_isAlpha_of_isDigit (h.2 c hc), ?_⟩
  rintro rfl
  exact absurd (h.2 _ hc) (by decide)

theorem unglued_append {s t : List Char} (hs : Wordless s) (hword : beginsWord t = false)
    (ht : Unglued t) : beginsWord (s ++ t) = false ∧ Unglued (s ++ t) := by
  induction s with
  | nil => exact ⟨hword, ht⟩
  | cons c s ih =>
    obtain ⟨⟨hc, hbar⟩, hs⟩ := List.forall_mem_cons.mp hs
    have he : c ≠ 'e' := by
      rintro rfl
      exact absurd hc (by decide)
    have hE : c ≠ 'E' := by
      rintro rfl
      exact absurd hc (by decide)
    obtain ⟨ih1, ih2⟩ := ih hs
    refine ⟨?_, fun _ => ih1, ih2⟩
    rw [List.cons_append, beginsWord]
    simp [hc, he, hE, hbar]

theorem Pieces.unglued {s ws p x : List Char} (h : Pieces s ws p x) {t : List Char}
    (hword : beginsWord t = false) (ht : Unglued t) : Unglued (s ++ t) := by
  obtain ⟨rfl, hws, hp, hx⟩ := h
  have hscale : beginsWord (x ++ t) = false ∧ Unglued (x ++ t) := by
    rcases hx with rfl | ⟨ds, hds, rfl | rfl⟩
    · exact ⟨hword, ht⟩
    · have hplus : Wordless ('+' :: ds) := List.forall_mem_cons.mpr ⟨by decide, hds.wordless⟩
      exact ⟨rfl, fun _ => rfl, (unglued_append hplus hword ht).2⟩
    · have hminus : Wordless ('-' :: ds) := List.forall_mem_cons.mpr ⟨by decide, hds.wordless⟩
      exact ⟨rfl, by simp, (unglued_append hminus hword ht).2⟩
  have hpoint : beginsWord (p ++ (x ++ t)) = false ∧ Unglued (p ++ (x ++ t)) := by
    rcases hp with rfl | ⟨fs, hfs, rfl⟩
    · exact hscale
    · exact unglued_append (List.forall_mem_cons.mpr ⟨by decide, hfs.wordless⟩) hscale.1 hscale.2
  rw [List.append_assoc, List.append_assoc]
  exact (unglued_append hws.wordless hpoint.1 hpoint.2).2

theorem Pieces.isNumber {s ws p x : List Char} (h : Pieces s ws p x) {a : Amount}
    (hsplit : ∀ t, Stops t → splitNumber (s ++ t) = (a, t)) : IsNumber s a where
  begins t := by
    rw [h.eq, List.append_assoc]
    exact startsWithDigit_append h.whole _
  ends := h.ends
  plain := h.plainText
  unglued _ hword ht := h.unglued hword ht
  split := hsplit

theorem isNumber_whole {n : ℕ} (hn : digitCount n ≤ longestWhole) :
    IsNumber (Nat.toDigits 10 n) (.whole n) :=
  Pieces.isNumber (p := []) (x := []) ⟨by simp, asciiDigits_toDigits n, Or.inl rfl, Or.inl rfl⟩
    fun _ => splitNumber_whole hn

theorem isNumber_point {ws fs : List Char} (hws : AsciiDigits ws) (hfs : AsciiDigits fs) :
    IsNumber (ws ++ '.' :: fs) (realNumber (ws ++ '.' :: fs)) := by
  have h : Pieces (ws ++ '.' :: fs) ws ('.' :: fs) [] :=
    ⟨by simp, hws, Or.inr ⟨fs, hfs, rfl⟩, Or.inl rfl⟩
  exact h.isNumber fun t => splitNumber_real h (Or.inl (List.cons_ne_nil _ _))

theorem isNumber_positional {style : Style} (hstyle : style.wholePoint = true) {ds : List Char}
    (hds : AsciiDigits ds) (p : ℤ) :
    IsNumber (style.positional ds p) (realNumber (style.positional ds p)) := by
  have hzero : AsciiDigits ['0'] := ⟨List.cons_ne_nil _ _, List.forall_mem_singleton.mpr rfl⟩
  rw [Style.positional]
  split
  · dsimp only
    split
    · exact isNumber_point (hds.append_zeros _) hzero
    · next h =>
      obtain ⟨htake, hdrop⟩ := hds.cut (Nat.succ_pos p.toNat) (not_le.mp h)
      exact isNumber_point htake hdrop
  · exact isNumber_point hzero (hds.zeros_append _)

theorem isNumber_exponential {ds : List Char} (hds : AsciiDigits ds) (p : ℤ) :
    IsNumber (Style.exponential ds p) (realNumber (Style.exponential ds p)) := by
  have hsize := (asciiDigits_toDigits p.natAbs).zeros_append (2 - (Nat.toDigits 10 p.natAbs).length)
  have htake : AsciiDigits (ds.take 1) :=
    ⟨by simp [hds.1], fun c hc => hds.2 c (List.mem_of_mem_take hc)⟩
  have hpoint : IsPoint (if ds.length ≤ 1 then [] else '.' :: ds.drop 1) := by
    split
    · exact Or.inl rfl
    · next h => exact Or.inr ⟨_, (hds.cut one_pos (not_le.mp h)).2, rfl⟩
  have hscale : IsScale ('e' :: (if p < 0 then '-' else '+') ::
      (List.replicate (2 - (Nat.toDigits 10 p.natAbs).length) '0' ++ Nat.toDigits 10 p.natAbs)) := by
    split
    · exact Or.inr ⟨_, hsize, Or.inr rfl⟩
    · exact Or.inr ⟨_, hsize, Or.inl rfl⟩
  have h : Pieces (Style.exponential ds p) _ _ _ :=
    ⟨List.append_assoc _ _ _, htake, hpoint, hscale⟩
  exact h.isNumber fun t => splitNumber_real h (Or.inr (List.cons_ne_nil _ _))

theorem isNumber_write {style : Style} (hstyle : style.wholePoint = true) (d : Digits) :
    IsNumber (style.write d) (realNumber (style.write d)) := by
  have hds := asciiDigits_toDigits d.coefficient
  rw [Style.write]
  split
  · exact isNumber_positional hstyle hds d.power
  · exact isNumber_exponential hds d.power

def minusIf (negative : Bool) : List Char := if negative then ['-'] else []

theorem IsNumber.unsigned {s : List Char} {a : Amount} (h : IsNumber s a) : Unsigned s := by
  have hbegins := h.begins []
  rw [List.append_nil] at hbegins
  intro t
  constructor <;> rintro rfl <;> exact Bool.false_ne_true hbegins

/-- A minus in front of a numeral is all that it changes of what is read. -/
theorem read?_minusIf {s : List Char} (hs : Unsigned s) (negative : Bool) :
    read? (minusIf negative ++ s) =
      (read? s).map fun d => ⟨negative, d.coefficient, d.exponent⟩ := by
  have hsign : splitSign (minusIf negative ++ s) = (negative, s) := by
    rw [minusIf, splitSign_append (isSign_sign negative) hs, sign_eq]
  rw [read?, read?, hsign, splitSign_unsigned hs]
  dsimp only
  split
  · rfl
  · rw [Option.map_map]
    rfl

theorem exists_shortestText {x : Float} {negative : Bool} {m : ℕ} {e : ℤ}
    (h : Binary.ofFloat x = .finite negative m e) :
    ∃ d, shortestText x = minusIf negative ++ (⟨-4, 16, true⟩ : Style).write d := by
  rw [shortestText, Style.text, h]
  dsimp only
  by_cases h0 : m = 0
  · exact ⟨_, by rw [if_pos h0, minusIf]⟩
  · exact ⟨_, by rw [if_neg h0, minusIf]⟩

/-- The shortest text of a double is one real number behind a minus or none. -/
theorem exists_isNumber_shortestText {x : Float} (hx : x.isFinite = true) :
    ∃ negative s y, shortestText x = minusIf negative ++ s ∧ IsNumber s (.real y) ∧
      y.isFinite = true ∧ x = if negative then -y else y := by
  obtain ⟨d, hread, hd⟩ := read?_shortestText hx
  obtain ⟨negative, m, e, hb⟩ := Binary.isFinite_iff.mp hx
  obtain ⟨digits, hdigits⟩ := exists_shortestText hb
  obtain ⟨s, hs⟩ : ∃ s, s = (⟨-4, 16, true⟩ : Style).write digits := ⟨_, rfl⟩
  have hnumber : IsNumber s (realNumber s) := hs ▸ isNumber_write rfl digits
  rw [hdigits, ← hs, read?_minusIf hnumber.unsigned] at hread
  obtain ⟨⟨sign, c, k⟩, hc, rfl⟩ := Option.map_eq_some_iff.mp hread
  -- without the minus the numeral is read with the same coefficient and exponent
  obtain rfl : sign = false := by
    have hplain := read?_minusIf hnumber.unsigned false
    rw [minusIf, if_neg Bool.false_ne_true, List.nil_append, hc] at hplain
    exact congrArg Decimal.negative (Option.some.inj hplain)
  have hreal : realNumber s = .real (nearest c k) := by
    rw [realNumber, hc, Option.map_some, Option.getD_some, toFloat]
    exact congrArg Amount.real (if_neg Bool.false_ne_true)
  rw [toFloat] at hd
  dsimp only at hd
  refine ⟨negative, s, nearest c k, hs ▸ hdigits, hreal ▸ hnumber, ?_, hd.symm⟩
  rw [← hd] at hx
  cases negative with
  | false => rwa [if_neg Bool.false_ne_true] at hx
  | true => rwa [if_pos rfl, Binary.isFinite_neg] at hx

theorem intText_eq (n : ℤ) :
    Value.intText n = minusIf (decide (n < 0)) ++ Nat.toDigits 10 n.natAbs := by
  cases n with
  | ofNat k => simp [Value.intText, toString, Int.repr, Nat.repr, minusIf]
  | negSucc k => simp [Value.intText, toString, Int.repr, Nat.repr, minusIf]

end Formula

end Immittance
