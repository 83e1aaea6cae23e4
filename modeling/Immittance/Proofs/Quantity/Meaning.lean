import Mathlib
import Immittance.Proofs.Quantity.Unit

/-!
# Values of formulas

As long as the numbers on the way are doubles, the value of a formula is the number of the units that
it means, as an amount or a quantity.
-/

set_option autoImplicit false

namespace Immittance

open Binary Powers

/-! ## Operations on terms -/

namespace Term

def Named (s : List Char) (u : PrefixedUnit) : Prop :=
  ofName s = .ok (.measured ⟨.whole 1, [(u, .whole 1)]⟩)

inductive Is : Term → Meaning PrefixedUnit → Prop
  | plain {a : Amount} {p : ℚ} (amount : a.Is p) : Is (.plain a) ⟨p, 0⟩
  | measured {a : Amount} {us : Units} {p : ℚ} {c : PrefixedUnit →₀ ℤ} (amount : a.Is p)
      (counts : Counts us c) : Is (.measured ⟨a, us⟩) ⟨p, c⟩

variable {s t : Term} {m n : Meaning PrefixedUnit}

theorem Is.isDouble (h : t.Is m) : IsDouble m.coefficient := by
  cases h with
  | plain amount => exact amount.isDouble
  | measured amount _ => exact amount.isDouble

theorem Is.mul (hs : s.Is m) (ht : t.Is n) (h : IsDouble (m.coefficient * n.coefficient)) :
    ∃ r, s.mul t = .ok r ∧ r.Is ⟨m.coefficient * n.coefficient, m.units + n.units⟩ := by
  cases hs with
  | @plain a p ha =>
    cases ht with
    | plain hb =>
      obtain ⟨c, hc, his⟩ := ha.mul hb h
      refine ⟨.plain c, ?_, ?_⟩
      · rw [Term.mul, hc]
        rfl
      · rw [add_zero]
        exact .plain his
    | @measured b us q _ hb hu =>
      rw [mul_comm] at h ⊢
      obtain ⟨c, hc, his⟩ := hb.mul ha h
      refine ⟨.measured ⟨c, us⟩, ?_, ?_⟩
      · rw [Term.mul, hc]
        rfl
      · rw [zero_add]
        exact .measured his hu
  | @measured a us p _ ha hu =>
    cases ht with
    | plain hb =>
      obtain ⟨c, hc, his⟩ := ha.mul hb h
      refine ⟨.measured ⟨c, us⟩, ?_, ?_⟩
      · rw [Term.mul, hc]
        rfl
      · rw [add_zero]
        exact .measured his hu
    | measured hb hv =>
      obtain ⟨c, hc, his⟩ := ha.mul hb h
      obtain ⟨ws, hws, hcounts⟩ := hu.mul hv
      refine ⟨.measured ⟨c, ws⟩, ?_, .measured his hcounts⟩
      rw [Term.mul, hc, hws]
      rfl

theorem Is.div (hs : s.Is m) (ht : t.Is n) (h0 : n.coefficient ≠ 0)
    (h : IsDouble (m.coefficient / n.coefficient)) :
    ∃ r, s.div t = .ok r ∧ r.Is ⟨m.coefficient / n.coefficient, m.units - n.units⟩ := by
  cases hs with
  | plain ha =>
    cases ht with
    | plain hb =>
      obtain ⟨c, hc, his⟩ := ha.div hb h0 h
      refine ⟨.plain c, ?_, ?_⟩
      · rw [Term.div, hc]
        rfl
      · rw [sub_zero]
        exact .plain his
    | measured hb hv =>
      obtain ⟨c, hc, his⟩ := ha.div hb h0 h
      obtain ⟨ws, hws, hcounts⟩ := hv.inverse
      refine ⟨.measured ⟨c, ws⟩, ?_, ?_⟩
      · rw [Term.div, hc, hws]
        rfl
      · rw [zero_sub]
        exact .measured his hcounts
  | @measured a us p _ ha hu =>
    cases ht with
    | plain hb =>
      obtain ⟨c, hc, his⟩ := ha.divReal hb h0 h
      refine ⟨.measured ⟨c, us⟩, ?_, ?_⟩
      · rw [Term.div, hc]
        rfl
      · rw [sub_zero]
        exact .measured his hu
    | measured hb hv =>
      obtain ⟨c, hc, his⟩ := ha.divReal hb h0 h
      obtain ⟨ws, hws, hcounts⟩ := hu.div hv
      refine ⟨.measured ⟨c, ws⟩, ?_, .measured his hcounts⟩
      rw [Term.div, hc, hws]
      rfl

theorem is_neg_one : (plain (.whole (-1))).Is ⟨(-1 : ℤ), 0⟩ :=
  .plain (.whole (isDouble_of_natAbs_lt (by norm_num)))

theorem Is.neg (ht : t.Is m) : ∃ r, t.neg = .ok r ∧ r.Is ⟨-m.coefficient, m.units⟩ := by
  have hcoefficient : m.coefficient * (-1 : ℤ) = -m.coefficient := by
    rw [Int.cast_neg, Int.cast_one, mul_neg_one]
  have := ht.mul is_neg_one (by rw [hcoefficient]; exact ht.isDouble.neg)
  rwa [hcoefficient, add_zero] at this

/-- A quantity to a whole power; the first power and the zeroth are cases of their own. -/
theorem is_powPlain {a : Amount} {us : Units} {p : ℚ} {c : PrefixedUnit →₀ ℤ} {k : ℤ} (ha : a.Is p)
    (hu : Counts us c) (hk : IsDouble k) (h0 : p ≠ 0 ∨ 0 ≤ k) (h : IsDouble (p ^ k)) :
    ∃ q, powPlain ⟨a, us⟩ (.whole k) = .ok q ∧ (measured q).Is ⟨p ^ k, k • c⟩ := by
  obtain ⟨b, hb, his⟩ := ha.pow hk h0 h
  by_cases hk1 : k = 1
  · subst hk1
    refine ⟨⟨a, us⟩, rfl, ?_⟩
    rw [zpow_one, one_smul]
    exact .measured ha hu
  by_cases hk0 : k = 0
  · subst hk0
    refine ⟨⟨b, []⟩, ?_, ?_⟩
    · show (do return ⟨← numeric (a.pow (.whole 0)), []⟩ : Calculated Quantity) = _
      rw [hb]
      rfl
    · rw [zero_smul]
      exact .measured his counts_nil
  · obtain ⟨vs, hvs, hcounts⟩ := hu.pow hk0
    refine ⟨⟨b, vs⟩, ?_, .measured his hcounts⟩
    have hone : ¬(Amount.whole k).isOne = true := mt beq_iff_eq.mp hk1
    have hzero : ¬(Amount.whole k).isZero = true := mt beq_iff_eq.mp hk0
    rw [powPlain, if_neg hone, if_neg hzero, hb, hvs]
    rfl

theorem Is.pow (ht : t.Is m) {k : ℤ} (hk : IsDouble k) (h0 : m.coefficient ≠ 0 ∨ 0 ≤ k)
    (h : IsDouble (m.coefficient ^ k)) :
    ∃ r, t.pow (.plain (.whole k)) = .ok r ∧ r.Is ⟨m.coefficient ^ k, k • m.units⟩ := by
  cases ht with
  | plain ha =>
    obtain ⟨c, hc, his⟩ := ha.pow hk h0 h
    refine ⟨.plain c, ?_, ?_⟩
    · rw [Term.pow, hc]
      rfl
    · rw [smul_zero]
      exact .plain his
  | measured ha hu =>
    obtain ⟨q, hq, his⟩ := is_powPlain ha hu hk h0 h
    refine ⟨.measured q, ?_, his⟩
    rw [Term.pow, hq]
    rfl

end Term

/-! ## Values of formulas -/

namespace Formula

open Term

theorem value_unary_minus {f : Formula} {t r : Term} (hf : f.value = .ok t) (hr : t.neg = .ok r) :
    (Formula.unary .minus f).value = .ok r := by
  show (do (← value f).neg.mapError FormulaFault.calculation) = _
  rw [hf]
  show t.neg.mapError FormulaFault.calculation = _
  rw [hr]
  rfl

def Sign.apply : Sign → Term → Term → Calculated Term
  | plus => Term.add
  | minus => Term.sub
  | times => Term.mul
  | divide => Term.div
  | power => Term.pow

theorem value_binary {s : Sign} {f g : Formula} {a b r : Term} (hf : f.value = .ok a)
    (hg : g.value = .ok b) (hr : s.apply a b = .ok r) : (Formula.binary s f g).value = .ok r := by
  have hvalue : (Formula.binary s f g).value = (do
      let a ← f.value
      let b ← g.value
      (s.apply a b).mapError FormulaFault.calculation) := by
    cases s <;> rfl
  rw [hvalue, hf, hg]
  show (s.apply a b).mapError FormulaFault.calculation = _
  rw [hr]
  rfl

theorem Exponent.value {e : Formula} {k : ℤ} (h : Exponent e k) :
    e.value = .ok (.plain (.whole k)) := by
  induction h with
  | number n => rfl
  | plus _ ih => exact ih
  | @minus e k _ ih =>
    apply value_unary_minus ih
    show Except.ok (Term.plain (.whole (k * -1))) = _
    rw [mul_neg_one]
  | times _ _ ihd ihe => exact value_binary ihd ihe rfl
  | @power d e j k _ _ ihd ihe =>
    apply value_binary ihd ihe
    have hpow : (Amount.whole j).pow (.whole k) = .ok (.whole (j ^ k)) := by
      rw [Amount.pow, if_pos (Int.natCast_nonneg k)]
      rfl
    show (do return Term.plain (← numeric ((Amount.whole j).pow (.whole k)))) = _
    rw [hpow]
    rfl

/-- A formula has the value that it means. -/
theorem Denotes.value {f : Formula} {m : Meaning PrefixedUnit} (h : f.Denotes Named IsDouble m) :
    ∃ t, f.value = .ok t ∧ t.Is m := by
  induction h with
  | number range => exact ⟨_, rfl, .plain (.whole range)⟩
  | unit stands =>
    have hone : (Amount.whole 1).Is ((1 : ℤ) : ℚ) := .whole (isDouble_of_natAbs_lt (by norm_num))
    rw [Int.cast_one] at hone
    refine ⟨_, ?_, .measured hone (counts_single _)⟩
    rw [Formula.value, show Term.ofName _ = _ from stands]
    rfl
  | plus _ ih => exact ih
  | minus _ ih =>
    obtain ⟨t, ht, his⟩ := ih
    obtain ⟨r, hr, his⟩ := his.neg
    exact ⟨r, value_unary_minus ht hr, his⟩
  | times _ _ range ihf ihg =>
    obtain ⟨s, hs, hsis⟩ := ihf
    obtain ⟨t, ht, htis⟩ := ihg
    obtain ⟨r, hr, his⟩ := hsis.mul htis range
    exact ⟨r, value_binary hs ht hr, his⟩
  | divide _ _ nonzero range ihf ihg =>
    obtain ⟨s, hs, hsis⟩ := ihf
    obtain ⟨t, ht, htis⟩ := ihg
    obtain ⟨r, hr, his⟩ := hsis.div htis nonzero range
    exact ⟨r, value_binary hs ht hr, his⟩
  | power _ exponent small nonzero range ih =>
    obtain ⟨t, ht, htis⟩ := ih
    obtain ⟨r, hr, his⟩ := htis.pow small nonzero range
    exact ⟨r, value_binary ht exponent.value hr, his⟩

end Formula

end Immittance
