import Mathlib
import Immittance.Decimal.Numeral

/-!
# Literals of numbers

The form of a plain decimal or exponential literal, said piece by piece: a sign, digits with at most
one point, an exponent. Reading accepts exactly the literals, and the value of one can be told from
its pieces.
-/

set_option autoImplicit false

namespace Immittance.Decimal

open Text

def IsSign (s : List Char) : Prop := s = [] ∨ s = ['+'] ∨ s = ['-']

def AllDigits (s : List Char) : Prop := ∀ c ∈ s, isDigit c = true

inductive IsMantissa : List Char → Prop
  | whole {ws : List Char} (some : ws ≠ []) (digits : AllDigits ws) : IsMantissa ws
  | point {ws fs : List Char} (some : ws ≠ [] ∨ fs ≠ []) (whole : AllDigits ws)
      (fraction : AllDigits fs) : IsMantissa (ws ++ '.' :: fs)

def IsExponent (s : List Char) : Prop :=
  s = [] ∨ ∃ mark sign ds, (mark = 'e' ∨ mark = 'E') ∧ IsSign sign ∧ ds ≠ [] ∧ AllDigits ds ∧
    s = mark :: (sign ++ ds)

def IsLiteral (s : List Char) : Prop :=
  ∃ sign m x, IsSign sign ∧ IsMantissa m ∧ IsExponent x ∧ s = sign ++ (m ++ x)

/-! ## Signs -/

def Unsigned (s : List Char) : Prop := ∀ t, s ≠ '+' :: t ∧ s ≠ '-' :: t

theorem splitSign_unsigned {s : List Char} (h : Unsigned s) : splitSign s = (false, s) := by
  cases s with
  | nil => rfl
  | cons c s =>
    have hp : c ≠ '+' := fun e => (h s).1 (by rw [e])
    have hm : c ≠ '-' := fun e => (h s).2 (by rw [e])
    rw [splitSign]
    · intro t e
      exact hm (List.cons.inj e).1
    · intro t e
      exact hp (List.cons.inj e).1

theorem splitSign_append {sign s : List Char} (hsign : IsSign sign) (h : Unsigned s) :
    splitSign (sign ++ s) = (sign == ['-'], s) := by
  rcases hsign with rfl | rfl | rfl
  · rw [List.nil_append, splitSign_unsigned h]
    rfl
  · rfl
  · rfl

theorem exists_sign (s : List Char) :
    ∃ sign, IsSign sign ∧ s = sign ++ (splitSign s).2 ∧ (splitSign s).1 = (sign == ['-']) := by
  fun_cases splitSign s with
  | case1 t => exact ⟨['-'], by simp [IsSign], rfl, rfl⟩
  | case2 t => exact ⟨['+'], by simp [IsSign], rfl, rfl⟩
  | case3 t => exact ⟨[], by simp [IsSign], rfl, rfl⟩

/-! ## Digits -/

theorem isDigit_sign : isDigit '+' = false ∧ isDigit '-' = false ∧ isDigit '.' = false ∧
    isDigit 'e' = false ∧ isDigit 'E' = false := by decide

theorem unsigned_append {ds s : List Char} (h : AllDigits ds) (hs : Unsigned s) :
    Unsigned (ds ++ s) := by
  cases ds with
  | nil => exact hs
  | cons c ds =>
    have hc := h c (by simp)
    intro t
    constructor
    · intro e
      obtain ⟨rfl, -⟩ := List.cons.inj e
      exact absurd hc (by simp [isDigit_sign.1])
    · intro e
      obtain ⟨rfl, -⟩ := List.cons.inj e
      exact absurd hc (by simp [isDigit_sign.2.1])

theorem unsigned_digits {ds : List Char} (h : AllDigits ds) : Unsigned ds := by
  have := unsigned_append (s := []) h fun t => by simp
  rwa [List.append_nil] at this

def Ended (s : List Char) : Prop := ∀ c t, s = c :: t → isDigit c = false

theorem takeWhile_digits {ds s : List Char} (h : AllDigits ds) (hs : Ended s) :
    (ds ++ s).takeWhile isDigit = ds := by
  rw [List.takeWhile_append_of_pos h]
  cases s with
  | nil => simp
  | cons c s => simp [hs c s rfl]

theorem dropWhile_digits {ds s : List Char} (h : AllDigits ds) (hs : Ended s) :
    (ds ++ s).dropWhile isDigit = s := by
  rw [List.dropWhile_append_of_pos h]
  cases s with
  | nil => rfl
  | cons c s => simp [hs c s rfl]

theorem exists_digits (s : List Char) :
    AllDigits (s.takeWhile isDigit) ∧ Ended (s.dropWhile isDigit) := by
  constructor
  · intro c hc
    exact List.mem_takeWhile_imp hc
  · intro c t h
    have hne : s.dropWhile isDigit ≠ [] := by simp [h]
    have := List.head_dropWhile_not isDigit hne
    simpa [h] using this

/-! ## Exponents -/

theorem readExponent?_mark {mark : Char} (hmark : mark = 'e' ∨ mark = 'E') {sign ds : List Char}
    (hsign : IsSign sign) (hne : ds ≠ []) (hd : AllDigits ds) :
    readExponent? (mark :: (sign ++ ds)) =
      some (if (sign == ['-']) = true then -(digitsValue ds : Int) else digitsValue ds) := by
  have hall : ds.all isDigit = true := List.all_eq_true.mpr hd
  rw [readExponent?, if_pos hmark, splitSign_append hsign (unsigned_digits hd)]
  simp [hne, hall]

theorem isExponent_iff {x : List Char} : IsExponent x ↔ (readExponent? x).isSome := by
  constructor
  · rintro (rfl | ⟨mark, sign, ds, hmark, hsign, hne, hd, rfl⟩)
    · rfl
    · rw [readExponent?_mark hmark hsign hne hd]
      rfl
  · intro h
    cases x with
    | nil => exact Or.inl rfl
    | cons c s =>
      right
      rw [readExponent?] at h
      by_cases hc : c = 'e' ∨ c = 'E'
      · obtain ⟨sign, hsign, hs, -⟩ := exists_sign s
        rw [if_pos hc] at h
        by_cases hd : ((splitSign s).2.isEmpty || !(splitSign s).2.all isDigit) = true
        · simp [hd] at h
        · have hds : (splitSign s).2 ≠ [] ∧ AllDigits (splitSign s).2 := by
            simpa [AllDigits] using hd
          exact ⟨c, sign, (splitSign s).2, hc, hsign, hds.1, hds.2, by rw [← hs]⟩
      · simp [hc] at h

theorem ended_exponent {x : List Char} (h : IsExponent x) : Ended x := by
  intro c t hx
  rcases h with rfl | ⟨mark, sign, ds, hmark, -, -, -, rfl⟩
  · simp at hx
  · obtain ⟨rfl, -⟩ := List.cons.inj hx
    rcases hmark with rfl | rfl
    · exact isDigit_sign.2.2.2.1
    · exact isDigit_sign.2.2.2.2

/-! ## Literals -/

theorem ended_point (s : List Char) : Ended ('.' :: s) := by
  intro c t h
  obtain ⟨rfl, -⟩ := List.cons.inj h
  exact isDigit_sign.2.2.1

theorem not_point_exponent {x : List Char} (h : IsExponent x) : ∀ t, x ≠ '.' :: t := by
  rintro t rfl
  rcases h with h | ⟨mark, sign, ds, hmark, -, -, -, h⟩
  · simp at h
  · obtain ⟨rfl, -⟩ := List.cons.inj h
    simp at hmark

theorem unsigned_exponent {x : List Char} (h : IsExponent x) : Unsigned x := by
  intro t
  rcases h with rfl | ⟨mark, sign, ds, hmark, -, -, -, rfl⟩
  · simp
  · rcases hmark with rfl | rfl <;> simp

theorem splitFraction_of_not_point {s : List Char} (h : ∀ t, s ≠ '.' :: t) :
    splitFraction s = ([], s) := by
  rw [splitFraction]
  exact h

theorem read?_whole {sign ws x : List Char} (hsign : IsSign sign) (hne : ws ≠ [])
    (hws : AllDigits ws) (hx : IsExponent x) :
    read? (sign ++ (ws ++ x)) =
      (readExponent? x).map fun e => ⟨sign == ['-'], digitsValue ws, e⟩ := by
  have hu := unsigned_append hws (unsigned_exponent hx)
  rw [read?, splitSign_append hsign hu]
  dsimp only
  rw [takeWhile_digits hws (ended_exponent hx), dropWhile_digits hws (ended_exponent hx),
    splitFraction_of_not_point (not_point_exponent hx)]
  simp [hne]

theorem read?_point {sign ws fs x : List Char} (hsign : IsSign sign) (hne : ws ≠ [] ∨ fs ≠ [])
    (hws : AllDigits ws) (hfs : AllDigits fs) (hx : IsExponent x) :
    read? (sign ++ (ws ++ '.' :: (fs ++ x))) =
      (readExponent? x).map fun e => ⟨sign == ['-'], digitsValue (ws ++ fs), e - fs.length⟩ := by
  have hu : Unsigned (ws ++ '.' :: (fs ++ x)) := unsigned_append hws fun t => by simp
  have hsome : (ws.isEmpty && fs.isEmpty) = false := by
    rcases hne with h | h <;> simp [h]
  rw [read?, splitSign_append hsign hu]
  dsimp only
  rw [takeWhile_digits hws (ended_point _), dropWhile_digits hws (ended_point _), splitFraction,
    takeWhile_digits hfs (ended_exponent hx), dropWhile_digits hfs (ended_exponent hx)]
  simp [hsome]

/-- Reading accepts exactly the literals. -/
theorem read?_isSome_iff {s : List Char} : (read? s).isSome ↔ IsLiteral s := by
  constructor
  · intro h
    obtain ⟨sign, hsign, hs, -⟩ := exists_sign s
    obtain ⟨hws, hend⟩ := exists_digits (splitSign s).2
    have hcut := List.takeWhile_append_dropWhile (p := isDigit) (l := (splitSign s).2)
    rw [read?] at h
    dsimp only at h
    generalize hw : (splitSign s).2.takeWhile isDigit = ws at *
    generalize hr : (splitSign s).2.dropWhile isDigit = r at *
    fun_cases splitFraction r with
    | case1 t =>
      obtain ⟨hfs, -⟩ := exists_digits t
      have hcut' := List.takeWhile_append_dropWhile (p := isDigit) (l := t)
      rw [splitFraction] at h
      generalize hf : t.takeWhile isDigit = fs at *
      generalize hx : t.dropWhile isDigit = x at *
      by_cases hne : (ws.isEmpty && fs.isEmpty) = true
      · simp [hne] at h
      · rw [if_neg hne, Option.isSome_map, ← isExponent_iff] at h
        have hsome : ws ≠ [] ∨ fs ≠ [] := by
          by_contra k
          push Not at k
          exact hne (by simp [k.1, k.2])
        refine ⟨sign, ws ++ '.' :: fs, x, hsign, IsMantissa.point hsome hws hfs, h, ?_⟩
        rw [hs, ← hcut, ← hcut']
        simp
    | case2 r hpoint =>
      rw [splitFraction_of_not_point hpoint] at h
      by_cases hne : ws = []
      · simp [hne] at h
      · simp only [List.isEmpty_eq_false_iff.mpr hne, Bool.false_and, Bool.false_eq_true, if_false,
          Option.isSome_map, ← isExponent_iff] at h
        exact ⟨sign, ws, r, hsign, IsMantissa.whole hne hws, h, by rw [hs, ← hcut]⟩
  · rintro ⟨sign, m, x, hsign, hm, hx, rfl⟩
    cases hm with
    | whole hne hws =>
      rw [read?_whole hsign hne hws hx, Option.isSome_map]
      exact isExponent_iff.mp hx
    | @point ws fs hne hws hfs =>
      rw [List.append_assoc, List.cons_append, read?_point hsign hne hws hfs hx, Option.isSome_map]
      exact isExponent_iff.mp hx

end Immittance.Decimal
