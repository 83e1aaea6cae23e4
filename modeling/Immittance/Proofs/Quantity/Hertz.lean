import Mathlib
import Immittance.Proofs.Decimal.Extremes
import Immittance.Proofs.Quantity.Numeral
import Immittance.Proofs.Quantity.System
import Immittance.Proofs.Text.Letter
import Immittance.Quantity.Hertz

/-!
# Numbers as frequencies

A number, its text, and its text with the unit of frequency behind it are the same frequency, with the
same sign if it is zero. A minus in front of the text negates what is read behind it.
-/

set_option autoImplicit false

namespace Immittance

open Text Decimal

namespace Formula

/-! ## Lexemes of a number -/

theorem beginsNumber_of_digit {s : List Char} (h : startsWithDigit s = true) :
    beginsNumber s = true := by
  rw [beginsNumber]
  · exact h
  · rintro u rfl
    exact Bool.false_ne_true h

theorem lexemes_number {s : List Char} {a : Amount} (h : IsNumber s a) (fuel : ℕ) {t : List Char}
    (ht : Stops t) : lexemes (fuel + 1) (s ++ t) = .number a :: lexemes fuel t := by
  have hsplit := h.split t ht
  have hbegins := h.begins t
  cases hs : s ++ t with
  | nil =>
    rw [hs] at hbegins
    exact absurd hbegins Bool.false_ne_true
  | cons c u =>
    rw [hs] at hsplit hbegins
    conv_lhs => unfold lexemes
    rw [if_pos (beginsNumber_of_digit hbegins), hsplit]

theorem lexemes_minus (fuel : ℕ) (s : List Char) :
    lexemes (fuel + 1) ('-' :: s) = .sign .minus :: lexemes fuel s := by
  rfl

theorem lexemes_nil (fuel : ℕ) : lexemes fuel [] = [] := by
  cases fuel <;> rfl

def frequencyName : List Char := ['H', 'z']

theorem lexemes_times_name (fuel : ℕ) : lexemes (fuel + 2) ('*' :: frequencyName) =
    .sign .times :: .name frequencyName :: lexemes fuel [] := by
  rfl

def signed (negative : Bool) (a : Amount) : Formula :=
  if negative then .unary .minus (.number a) else .number a

theorem isNumber_length {s : List Char} {a : Amount} (h : IsNumber s a) : ∃ k, s.length = k + 1 := by
  apply Nat.exists_eq_succ_of_ne_zero
  rw [Ne, List.length_eq_zero_iff]
  rintro rfl
  exact Bool.false_ne_true (h.begins [])

theorem plainText_name : PlainText frequencyName := by
  intro c hc
  have hc : c = 'H' ∨ c = 'z' := by simpa [frequencyName] using hc
  rcases hc with rfl | rfl <;> exact ⟨by decide, by decide, by decide, by decide⟩

/-! ## Signs -/

theorem plainText_minusIf (negative : Bool) : PlainText (minusIf negative) := by
  cases negative with
  | false => exact fun c hc => absurd hc List.not_mem_nil
  | true => exact List.forall_mem_singleton.mpr ⟨by decide, by decide, by decide, by decide⟩

theorem unglued_minusIf (negative : Bool) {s : List Char} (h : Unglued s) :
    Unglued (minusIf negative ++ s) := by
  cases negative with
  | false => exact h
  | true => exact ⟨by simp, h⟩

theorem getLast?_minusIf (negative : Bool) {s : List Char} (h : s.getLast?.any isWordChar = true) :
    (minusIf negative ++ s).getLast?.any isWordChar = true := by
  cases s with
  | nil => exact absurd h (by decide)
  | cons c s => rwa [List.getLast?_append_of_ne_nil _ (List.cons_ne_nil c s)]

theorem lexemes_minusIf (negative : Bool) (fuel : ℕ) (s : List Char) :
    lexemes (fuel + (minusIf negative).length) (minusIf negative ++ s) =
      (if negative then [.sign .minus] else []) ++ lexemes fuel s := by
  cases negative with
  | false => rfl
  | true => exact lexemes_minus fuel s

theorem ofLexemes_signed (negative : Bool) (a : Amount) :
    ofLexemes ((if negative then [.sign .minus] else []) ++ [.number a]) = .ok (signed negative a) ∧
    ofLexemes ((if negative then [.sign .minus] else []) ++
      [.number a, .sign .times, .name frequencyName]) =
        .ok (.binary .times (signed negative a) (.name frequencyName)) := by
  cases negative <;> exact ⟨rfl, rfl⟩

theorem parse_number {s : List Char} {a : Amount} (h : IsNumber s a) (negative : Bool) :
    parse (minusIf negative ++ s) = .ok (signed negative a) := by
  have hglued := h.unglued [] rfl trivial
  have hnumber := fun k => lexemes_number h k (t := []) (Or.inl rfl)
  simp only [List.append_nil, lexemes_nil] at hglued hnumber
  have hspell := spell_self (plainText_append.mpr ⟨plainText_minusIf negative, h.plain⟩)
    (unglued_minusIf negative hglued)
  obtain ⟨k, hk⟩ := isNumber_length h
  have hlen : (minusIf negative ++ s).length = k + 1 + (minusIf negative).length := by
    rw [List.length_append, hk, Nat.add_comm]
  rw [parse, hspell]
  show ofLexemes (lexemes _ (minusIf negative ++ s)) = _
  rw [hlen, lexemes_minusIf, hnumber]
  exact (ofLexemes_signed negative a).1

theorem parse_number_unit {s : List Char} {a : Amount} (h : IsNumber s a) (negative : Bool) :
    parse (minusIf negative ++ s ++ ' ' :: frequencyName) =
      .ok (.binary .times (signed negative a) (.name frequencyName)) := by
  have hglued := h.unglued (' ' :: frequencyName) rfl (by simp [Unglued, frequencyName])
  have hspell := spell_beside (plainText_append.mpr ⟨plainText_minusIf negative, h.plain⟩)
    plainText_name (getLast?_minusIf negative h.ends) (by decide)
    (by rw [List.append_assoc]; exact unglued_minusIf negative hglued)
  obtain ⟨k, hk⟩ := isNumber_length h
  have hlen : (minusIf negative ++ (s ++ '*' :: frequencyName)).length =
      k + 1 + 2 + 1 + (minusIf negative).length := by
    rw [List.length_append, List.length_append, hk, Nat.add_comm]
    rfl
  rw [parse, hspell, List.append_assoc]
  show ofLexemes (lexemes _ (minusIf negative ++ (s ++ '*' :: frequencyName))) = _
  rw [hlen, lexemes_minusIf, lexemes_number h _ (Or.inr ⟨_, rfl⟩), lexemes_times_name, lexemes_nil]
  exact (ofLexemes_signed negative a).2

end Formula

/-! ## Frequencies -/

namespace Frequency

open Formula

def negatedIf (negative : Bool) (a : Amount) : Except NumberFault Amount :=
  if negative then a.mul (.whole (-1)) else .ok a

theorem value_signed {negative : Bool} {a b : Amount} (h : negatedIf negative a = .ok b) :
    (signed negative a).value = .ok (.plain b) := by
  cases negative with
  | false =>
    obtain rfl : a = b := Except.ok.inj h
    rfl
  | true =>
    have h : a.mul (.whole (-1)) = .ok b := h
    show ((Term.plain a).neg).mapError FormulaFault.calculation = _
    rw [Term.neg, Term.mul, h]
    rfl

theorem ofName_frequencyName :
    Term.ofName frequencyName = .ok (.measured ⟨.whole 1, Units.hertz⟩) := by
  rfl

def parts : Term → Amount × Units
  | .plain a => (a, [])
  | .measured q => (q.amount, q.units)

theorem parse_nil : parse [] = .error .incomplete := by cbv

/-- A text is the quantity that the value of its formula is. -/
theorem quantity_eq {s : List Char} {f : Formula} {t : Term} (hparse : parse s = .ok f)
    (hvalue : f.value = .ok t) :
    quantity (.text s) = .ok (.amount (parts t).1, (parts t).2) := by
  have hne : s.isEmpty = false := by
    cases s with
    | nil =>
      rw [parse_nil] at hparse
      cases hparse
    | cons c s => rfl
  have hterm : ofText s = .ok t := by
    rw [ofText, hne, hparse]
    show f.value.mapError FrequencyFault.formula = _
    rw [hvalue]
    rfl
  rw [quantity, hterm]
  cases t <;> rfl

theorem value_signed_unit {negative : Bool} {a b : Amount} (h : negatedIf negative a = .ok b)
    (hone : (Amount.whole 1).mul b = .ok b) :
    (Formula.binary .times (signed negative a) (.name frequencyName)).value =
      .ok (.measured ⟨b, Units.hertz⟩) := by
  rw [value, value_signed h]
  show (do
    let b ← (Term.ofName frequencyName).mapError FormulaFault.calculation
    ((Term.plain _).mul b).mapError FormulaFault.calculation) = _
  rw [ofName_frequencyName]
  show ((Term.plain b).mul (.measured ⟨.whole 1, Units.hertz⟩)).mapError _ = _
  rw [Term.mul, hone]
  rfl

theorem convert_hertz (a : Amount) : Quantity.convert ⟨a, Units.hertz⟩ Units.hertz = .ok a := by
  have hsame : Powers.same Units.hertz Units.hertz = true := by decide +kernel
  rw [Quantity.convert, if_pos hsame]
  rfl

theorem one_mul_real {x : Float} (hx : x.isFinite = true) :
    (Amount.whole 1).mul (.real x) = .ok (.real x) := by
  show (do
    let y ← realOfWhole 1
    return Amount.real (y * x)) = _
  rw [realOfWhole_one]
  show Except.ok (Amount.real (1 * x)) = _
  rw [Binary.one_mul_of_finite hx]

theorem negatedIf_real {y : Float} (hy : y.isFinite = true) (negative : Bool) :
    negatedIf negative (.real y) = .ok (.real (if negative then -y else y)) := by
  cases negative with
  | false => rfl
  | true =>
    show (do
      let z ← realOfWhole (-1)
      return Amount.real (y * z)) = _
    rw [realOfWhole_neg_one]
    show Except.ok (Amount.real (y * -1)) = _
    rw [Binary.mul_neg_one_of_finite hy]
    rfl

theorem negatedIf_whole (n : ℤ) :
    negatedIf (decide (n < 0)) (.whole n.natAbs) = .ok (.whole n) := by
  by_cases h : n < 0
  · have hn : (n.natAbs : ℤ) * -1 = n := by omega
    rw [decide_eq_true h]
    exact congrArg (fun m => Except.ok (Amount.whole m)) hn
  · have hn : (n.natAbs : ℤ) = n := by omega
    rw [decide_eq_false h, hn]
    rfl

/-- Whole numbers that are not too large for a double are not too long. -/
theorem digitCount_le {n : ℤ} (h : |(n : ℚ)| < Binary.overflow) :
    digitCount n.natAbs ≤ longestWhole := by
  rcases Nat.eq_zero_or_pos n.natAbs with h0 | h0
  · rw [h0]
    decide
  · have hsize : ((n.natAbs : ℕ) : ℚ) = |(n : ℚ)| := by
      rw [Nat.cast_natAbs, Int.cast_abs]
    have hlow : ((10 ^ (digitCount n.natAbs - 1) : ℕ) : ℚ) ≤ n.natAbs :=
      Nat.cast_le.mpr (pow_digitCount_le h0)
    have hlt : (10 : ℚ) ^ ((digitCount n.natAbs - 1 : ℕ) : ℤ) < 10 ^ (309 : ℤ) := by
      rw [zpow_natCast]
      push_cast at hlow
      linarith [overflow_lt]
    have := lt_of_pow_lt hlt
    rw [longestWhole]
    omega

/-! ### Registries that read numbers -/

end Frequency

section
variable {α : Type} [Letter α]

open Formula Frequency Letter

inductive Amount.Finite : Amount → Prop
  | whole (n : ℤ) : Finite (.whole n)
  | real {x : Float} (finite : x.isFinite = true) : Finite (.real x)

/-- A registry that reads a number, and a minus in front of it, as it stands, and with the unit of
frequency behind it as that many hertz, which it leaves as they are. -/
structure Registry.ReadsNumbers (R : Registry α) : Prop where
  number : ∀ {s a negative b}, IsNumber s a → negatedIf negative a = .ok b → b.Finite →
    ∃ us, R.quantity (.text (spell (minusIf negative ++ s))) = .ok (.amount b, us) ∧
      R.isDimensionless (.amount b, us) = .ok true
  hertz : ∀ {s a negative b}, IsNumber s a → negatedIf negative a = .ok b → b.Finite →
    ∃ us, R.quantity (.text (spell (minusIf negative ++ s ++ ' ' :: frequencyName))) =
        .ok (.amount b, us) ∧
      R.isDimensionless (.amount b, us) = .ok false ∧ R.inHertz (.amount b, us) = .ok (.amount b)

namespace Registry

/-- A signed number is the frequency of its amount, with and without the unit. -/
theorem ReadsNumbers.toHertz_number {R : Registry α} (hR : R.ReadsNumbers) {negative : Bool}
    {s : List Char} {a b : Amount} (hs : IsNumber s a) (hb : negatedIf negative a = .ok b)
    (hfinite : b.Finite) :
    R.toHertz (.text (spell (minusIf negative ++ s))) = b.asReal ∧
    R.toHertz (.text (spell (minusIf negative ++ s ++ ' ' :: frequencyName))) = b.asReal := by
  obtain ⟨us, hquantity, hbare⟩ := hR.number hs hb hfinite
  obtain ⟨vs, hmeasured, hunit, hinHertz⟩ := hR.hertz hs hb hfinite
  constructor
  · rw [toHertz_text, hquantity]
    show R.isDimensionless (.amount b, us) >>= _ = _
    rw [hbare]
    rfl
  · rw [toHertz_text, hmeasured]
    show R.isDimensionless (.amount b, vs) >>= _ = _
    rw [hunit]
    show R.inHertz (.amount b, vs) >>= Magnitude.asReal = _
    rw [hinHertz]
    rfl

/-- To a registry that reads numbers, every finite double is the frequency that its text is, with and
without the unit; and so is every whole number that does not exceed the doubles, rounded. -/
theorem ReadsNumbers.toHertz_written {R : Registry α} (hR : R.ReadsNumbers) :
    (∀ x : Float, x.isFinite = true →
      R.toHertz (.float x) = .ok x ∧ R.toHertz (.text (spell (shortestText x))) = .ok x ∧
      R.toHertz (.text (spell (shortestText x ++ " Hz".toList))) = .ok x) ∧
    ∀ n : ℤ, |(n : ℚ)| < Binary.overflow → ∃ y, Binary.IsRounding n y ∧
      R.toHertz (.int n) = .ok y ∧ R.toHertz (.text (spell (Value.intText n))) = .ok y ∧
      R.toHertz (.text (spell (Value.intText n ++ " Hz".toList))) = .ok y := by
  constructor
  · intro x hx
    obtain ⟨negative, s, y, htext, hs, hy, rfl⟩ := exists_isNumber_shortestText hx
    rw [htext]
    refine ⟨rfl, hR.toHertz_number hs (negatedIf_real hy negative) (.real hx)⟩
  · intro n hn
    obtain ⟨y, hreal, hround⟩ := realOfWhole_of_lt hn
    obtain ⟨htext, hunit⟩ := hR.toHertz_number (isNumber_whole (digitCount_le hn))
      (negatedIf_whole n) (.whole n)
    have hwhole : (Amount.whole n).asReal (α := α) = .ok y := mapError_eq_ok_iff.mpr hreal
    rw [← intText_eq, hwhole] at htext hunit
    exact ⟨y, hround, hwhole, htext, hunit⟩

end Registry

end

namespace Frequency

open Formula Letter

theorem one_mul_of_finite {b : Amount} (h : b.Finite) : (Amount.whole 1).mul b = .ok b := by
  cases h with
  | whole n => exact congrArg (fun m => Except.ok (Amount.whole m)) (one_mul n)
  | real finite => exact one_mul_real finite

theorem standard_readsNumbers : Registry.standard.ReadsNumbers where
  number hs hb _ := by
    rw [spell_char]
    exact ⟨[], quantity_eq (parse_number hs _) (value_signed hb), rfl⟩
  hertz {_ _ _ b} hs hb hfinite := by
    rw [spell_char]
    have hvalue := value_signed_unit hb (one_mul_of_finite hfinite)
    refine ⟨Units.hertz, quantity_eq (parse_number_unit hs _) hvalue, rfl, ?_⟩
    show (do return Magnitude.amount (← calculated (Quantity.convert ⟨b, Units.hertz⟩ Units.hertz))) = _
    rw [convert_hertz]
    rfl

/-- Every finite double is the frequency that its text is, with and without the unit; and so is every
whole number that does not exceed the doubles, rounded. -/
theorem toHertz_texts :
    (∀ x : Float, x.isFinite = true →
      toHertz (.float x) = .ok x ∧ toHertz (.text (shortestText x)) = .ok x ∧
      toHertz (.text (shortestText x ++ " Hz".toList)) = .ok x) ∧
    ∀ n : ℤ, |(n : ℚ)| < Binary.overflow → ∃ y, Binary.IsRounding n y ∧
      toHertz (.int n) = .ok y ∧ toHertz (.text (Value.intText n)) = .ok y ∧
      toHertz (.text (Value.intText n ++ " Hz".toList)) = .ok y := by
  have h := standard_readsNumbers.toHertz_written
  simp only [spell_char] at h
  exact h

theorem toHertz_texts_negative :
    ((-0 : Float).isFinite = true ∧ toHertz (.float (-0)) = .ok (-0) ∧
      toHertz (.text (shortestText (-0))) = .ok (-0) ∧
      toHertz (.text (shortestText (-0) ++ " Hz".toList)) = .ok (-0)) ∧
    |((-5 : ℤ) : ℚ)| < Binary.overflow ∧ ∃ y, Binary.IsRounding (-5 : ℤ) y ∧
      toHertz (.int (-5)) = .ok y ∧ toHertz (.text (Value.intText (-5))) = .ok y ∧
      toHertz (.text (Value.intText (-5) ++ " Hz".toList)) = .ok y := by
  have hzero : (-0 : Float).isFinite = true := by decide +kernel
  have hfive : |((-5 : ℤ) : ℚ)| < Binary.overflow :=
    lt_trans (by norm_num) (Binary.pow_lt_overflow (k := 3) (by norm_num))
  exact ⟨⟨hzero, toHertz_texts.1 (-0) hzero⟩, hfive, toHertz_texts.2 (-5) hfive⟩

end Frequency

end Immittance
