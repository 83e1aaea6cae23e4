import Mathlib
import Immittance.Report
import Immittance.Proofs.Decimal.RoundTrip
import Immittance.Proofs.Expression.Layout
import Immittance.Proofs.Text.Letter

/-!
# The rows of a report

A report is cut at its line feeds. Every value in it stands in one row: lines of the details and of
the suggestion, because a line ends at a line feed, and the frequency, because a number is written
without one. The rows that begin with two blanks are those lines; the others are the frame, and the
details and the suggestion do not reach into it.
-/

set_option autoImplicit false

namespace Immittance

open Text

namespace Text

def rows (s : List Char) : List (List Char) := s.splitOn '\n'

def OneRow (s : List Char) : Prop := '\n' ∉ s

instance (s : List Char) : Decidable (OneRow s) := inferInstanceAs (Decidable ('\n' ∉ s))

theorem rows_of_oneRow {s : List Char} (h : OneRow s) : rows s = [s] := List.splitOn_eq_singleton h

theorem oneRow_append {s t : List Char} : OneRow (s ++ t) ↔ OneRow s ∧ OneRow t := by
  simp [OneRow, not_or]

theorem oneRow_cons {c : Char} {s : List Char} : OneRow (c :: s) ↔ c ≠ '\n' ∧ OneRow s := by
  simp [OneRow, not_or, eq_comm]

/-- Texts joined by line feeds have their rows one after the other. -/
theorem rows_intercalate {ss : List (List Char)} (h : ss ≠ []) :
    rows (['\n'].intercalate ss) = ss.flatMap rows := by
  induction ss with
  | nil => exact absurd rfl h
  | cons s ss ih =>
    cases ss with
    | nil => simp [List.intercalate]
    | cons t ss =>
      have hcut : rows (s ++ '\n' :: ['\n'].intercalate (t :: ss)) =
          rows s ++ rows (['\n'].intercalate (t :: ss)) := by
        simp only [rows, List.splitOn_eq_splitOnP]
        exact List.splitOnP_append_cons _ _ (by simp)
      have hjoin : ['\n'].intercalate (s :: t :: ss) =
          s ++ '\n' :: ['\n'].intercalate (t :: ss) := by
        rw [List.intercalate_cons_cons, List.append_assoc, List.singleton_append]
      rw [hjoin, hcut, ih (by simp), ← List.flatMap_cons]

theorem rows_cons_of_oneRow {s : List Char} (h : OneRow s) : rows ('\n' :: s) = [[], s] := by
  have hjoin : '\n' :: s = ['\n'].intercalate [[], s] := by simp
  have hempty : rows [] = [[]] := rfl
  rw [hjoin, rows_intercalate (by simp), List.flatMap_cons, List.flatMap_singleton, hempty,
    rows_of_oneRow h, List.singleton_append]

theorem flatMap_rows {ss : List (List Char)} (h : ∀ s ∈ ss, OneRow s) : ss.flatMap rows = ss := by
  induction ss with
  | nil => rfl
  | cons s ss ih =>
    rw [List.flatMap_cons, rows_of_oneRow (h s (by simp)), ih fun t ht => h t (by simp [ht]),
      List.singleton_append]

/-! ## Lines -/

theorem oneRow_of_mem_linesFrom {line s l : List Char} (hline : OneRow line)
    (h : l ∈ linesFrom line s) : OneRow l := by
  have hreverse : OneRow line.reverse := fun hmem => hline (List.mem_reverse.mp hmem)
  -- a letter that ends no line is not the line feed
  have hcons : ∀ {a line}, isLineEnd a = false → OneRow line → OneRow (a :: line) := by
    intro a line hend hline
    refine oneRow_cons.mpr ⟨?_, hline⟩
    rintro rfl
    exact absurd hend (by decide)
  induction line, s using linesFrom.induct with
  | case1 line hempty => simp [linesFrom, hempty] at h
  | case2 line hsome =>
    obtain rfl : l = line.reverse := by simpa [linesFrom, hsome] using h
    exact hreverse
  | case3 line a hend ih =>
    rw [linesFrom, if_pos hend, List.mem_cons] at h
    rcases h with rfl | h
    · exact hreverse
    · exact ih List.not_mem_nil h List.not_mem_nil
  | case4 line a hend ih =>
    rw [linesFrom, if_neg hend] at h
    have hline := hcons (Bool.eq_false_iff.mpr hend) hline
    exact ih hline h fun hmem => hline (List.mem_reverse.mp hmem)
  | case5 line a b s hpair ih =>
    rw [linesFrom, if_pos hpair, List.mem_cons] at h
    rcases h with rfl | h
    · exact hreverse
    · exact ih List.not_mem_nil h List.not_mem_nil
  | case6 line a b s hpair hend ih =>
    rw [linesFrom, if_neg hpair, if_pos hend, List.mem_cons] at h
    rcases h with rfl | h
    · exact hreverse
    · exact ih List.not_mem_nil h List.not_mem_nil
  | case7 line a b s hpair hend ih =>
    rw [linesFrom, if_neg hpair, if_neg hend] at h
    have hline := hcons (Bool.eq_false_iff.mpr hend) hline
    exact ih hline h fun hmem => hline (List.mem_reverse.mp hmem)

theorem oneRow_of_mem_lines {s l : List Char} (h : l ∈ lines s) : OneRow l :=
  oneRow_of_mem_linesFrom List.not_mem_nil h

theorem linesFrom_ne_nil {line s : List Char} (h : line ≠ [] ∨ s ≠ []) : linesFrom line s ≠ [] := by
  induction line, s using linesFrom.induct with
  | case1 line hempty => simp_all
  | case2 line hsome => simp [linesFrom, hsome]
  | case3 line a hend ih =>
    rw [linesFrom, if_pos hend]
    exact List.cons_ne_nil _ _
  | case4 line a hend ih =>
    rw [linesFrom, if_neg hend]
    exact ih (Or.inl (List.cons_ne_nil _ _))
  | case5 line a b s hpair ih =>
    rw [linesFrom, if_pos hpair]
    exact List.cons_ne_nil _ _
  | case6 line a b s hpair hend ih =>
    rw [linesFrom, if_neg hpair, if_pos hend]
    exact List.cons_ne_nil _ _
  | case7 line a b s hpair hend ih =>
    rw [linesFrom, if_neg hpair, if_neg hend]
    exact ih (Or.inl (List.cons_ne_nil _ _))

theorem lines_eq_nil_iff {s : List Char} : lines s = [] ↔ s = [] := by
  constructor
  · intro h
    by_contra hs
    exact linesFrom_ne_nil (Or.inr hs) h
  · rintro rfl
    rfl

end Text

/-! ## Frequencies -/

/-- A finite double is written as a literal, whatever the style and the digits that are chosen. -/
theorem Style.isLiteral_text (style : Style) (choose : ℕ → ℕ → Digits) {x : Float}
    (hx : x.isFinite = true) : Decimal.IsLiteral (style.text choose x) := by
  obtain ⟨negative, m, e, hb⟩ := Binary.isFinite_iff.mp hx
  have hwrite : ∀ d : Digits,
      Decimal.IsLiteral ((if negative then ['-'] else []) ++ style.write d) := by
    intro d
    obtain ⟨c, p, hread, -⟩ := Style.reads_write style d _ (isSign_sign negative)
    exact Decimal.read?_isSome_iff.mp (by rw [hread]; rfl)
  rw [Style.text, hb]
  dsimp only
  by_cases hm : m = 0
  · rw [if_pos hm]
    exact hwrite _
  · rw [if_neg hm]
    exact hwrite _

theorem oneRow_of_isLiteral {s : List Char} (h : Decimal.IsLiteral s) : OneRow s := by
  intro hmem
  have hblank := Expression.not_blank_of_isLiteralChar (Expression.isLiteralChar_of_mem h _ hmem)
  exact absurd hblank (by decide)

theorem oneRow_significantText (n : ℕ) (x : Float) : OneRow (significantText n x) := by
  cases hx : Binary.ofFloat x with
  | nan =>
    rw [significantText, Style.text, hx]
    show OneRow ['n', 'a', 'n']
    decide
  | infinite negative =>
    rw [significantText, Style.text, hx]
    show OneRow ((if negative then ['-'] else []) ++ ['i', 'n', 'f'])
    cases negative <;> decide
  | finite negative m e =>
    exact oneRow_of_isLiteral (Style.isLiteral_text _ _ (Binary.isFinite_iff.mpr ⟨negative, m, e, hx⟩))

theorem oneRow_frequency (f : Float) : OneRow (Frequency.text f) := by
  have hsymbols : ∀ x ∈ Frequency.prefixes, OneRow x.2 := by decide
  have hsymbol : ∀ p, OneRow ((Frequency.prefixes.lookup p).getD []) := by
    intro p
    cases h : Frequency.prefixes.lookup p with
    | none => exact List.not_mem_nil
    | some s =>
      obtain ⟨before, after, htable, -⟩ := List.lookup_eq_some_iff.mp h
      exact hsymbols (p, s) (by simp [htable])
  rw [Frequency.text]
  split
  · refine oneRow_append.mpr ⟨oneRow_append.mpr ⟨oneRow_significantText _ _, ?_⟩, by decide⟩
    exact oneRow_cons.mpr ⟨by decide, hsymbol _⟩
  · exact oneRow_append.mpr ⟨oneRow_significantText _ _, by decide⟩

end Immittance
