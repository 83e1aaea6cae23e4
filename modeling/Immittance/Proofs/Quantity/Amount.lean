import Mathlib
import Immittance.Quantity.Amount
import Immittance.Proofs.Decimal.Denotation
import Immittance.Proofs.Decimal.Exact

/-!
# Amounts as numbers

An amount is a number exactly if it is whole or finite and the number is a double. As long as the
numbers are doubles, products, quotients and powers of amounts are the amounts of those numbers,
whether the amounts are whole or real.
-/

set_option autoImplicit false

namespace Immittance

open Binary

/-! ## Whole numbers as doubles -/

theorem rounds_nearest_div (k : ℕ) {d : ℕ} (hd : 0 < d) :
    Rounds false ((k : ℚ) / d) (nearest k d) := by
  rcases Nat.eq_zero_or_pos k with rfl | hk
  · rw [nearest, if_pos rfl, Nat.cast_zero, zero_div]
    exact Decimal.rounds_zero le_rfl (by positivity)
  · exact rounds_nearest hk hd

theorem realOfWhole_eq (n : ℤ) : ∃ x, IsRounding n x ∧
    realOfWhole n = if x.isFinite then .ok x else .error .wholeTooLarge := by
  have hround := (rounds_nearest_div n.natAbs one_pos).isRounding (by positivity) (decide (n < 0))
  rw [Nat.cast_one, div_one, ← cast_eq_factor] at hround
  refine ⟨_, hround, ?_⟩
  rw [realOfWhole]
  by_cases h : n < 0
  · rw [decide_eq_true h, if_pos rfl, isFinite_neg, if_pos h]
  · rw [decide_eq_false h, if_neg Bool.false_ne_true, if_neg h]

theorem realOfWhole_of_lt {n : ℤ} (h : |(n : ℚ)| < overflow) :
    ∃ x, realOfWhole n = .ok x ∧ IsRounding n x := by
  obtain ⟨x, hround, heq⟩ := realOfWhole_eq n
  exact ⟨x, by rw [heq, if_pos (hround.isFinite_iff.mpr h)], hround⟩

theorem isFinite_one : (1 : Float).isFinite = true := isFinite_iff.mpr ⟨_, _, _, ofFloat_one⟩

theorem nearest_one : nearest 1 1 = 1 := ofFloat_injective (by decide +kernel)

theorem realOfWhole_one : realOfWhole 1 = .ok 1 := by
  simp only [realOfWhole, Int.natAbs_one, nearest_one, isFinite_one]
  rfl

theorem realOfWhole_neg_one : realOfWhole (-1) = .ok (-1) := by
  simp only [realOfWhole, Int.natAbs_neg, Int.natAbs_one, nearest_one, isFinite_one]
  rfl

/-! ## Exact amounts -/

namespace Amount

inductive Is : Amount → ℚ → Prop
  | whole {n : ℤ} (double : IsDouble n) : Is (.whole n) n
  | real {x : Float} (finite : x.isFinite = true) : Is (.real x) (ofFloat x).value

variable {a b : Amount} {p q : ℚ}

theorem Is.isDouble (h : a.Is p) : IsDouble p := by
  cases h with
  | whole double => exact double
  | real finite => exact isDouble_value finite

theorem is_real {x : Float} {v : ℚ} (h : x.isFinite = true ∧ (ofFloat x).value = v) :
    (real x).Is v := by
  rw [← h.2]
  exact .real h.1

theorem Is.toReal (h : a.Is p) : ∃ x, a.toReal = .ok x ∧ x.isFinite = true ∧ (ofFloat x).value = p := by
  cases h with
  | whole double =>
    obtain ⟨x, hx, hround⟩ := realOfWhole_of_lt double.lt_overflow
    exact ⟨x, hx, hround.exact double⟩
  | @real x finite => exact ⟨x, rfl, finite, rfl⟩

theorem Is.real_result (ha : a.Is p) (hb : b.Is q) {f : Float → Float → Except NumberFault Amount}
    {v : ℚ} (hf : ∀ x y : Float, x.isFinite = true → y.isFinite = true → (ofFloat x).value = p →
      (ofFloat y).value = q → ∃ c, f x y = .ok c ∧ c.Is v) :
    ∃ c, (do let x ← a.toReal; let y ← b.toReal; f x y) = .ok c ∧ c.Is v := by
  obtain ⟨x, hx, hxf, hxv⟩ := ha.toReal
  obtain ⟨y, hy, hyf, hyv⟩ := hb.toReal
  rw [hx, hy]
  exact hf x y hxf hyf hxv hyv

theorem Is.mul (ha : a.Is p) (hb : b.Is q) (h : IsDouble (p * q)) :
    ∃ c, a.mul b = .ok c ∧ c.Is (p * q) := by
  have hreal : ∃ c, (do let x ← a.toReal; let y ← b.toReal; return Amount.real (x * y)) = Except.ok c ∧
      c.Is (p * q) := by
    apply ha.real_result hb
    rintro x y hx hy rfl rfl
    exact ⟨_, rfl, is_real (mul_exact hx hy h)⟩
  cases ha with
  | @whole m _ =>
    cases hb with
    | @whole n _ =>
      rw [← Int.cast_mul] at h ⊢
      exact ⟨_, rfl, .whole h⟩
    | real _ => exact hreal
  | real _ => exact hreal

theorem Is.divReal (ha : a.Is p) (hb : b.Is q) (h0 : q ≠ 0) (h : IsDouble (p / q)) :
    ∃ c, a.divReal b = .ok c ∧ c.Is (p / q) := by
  apply ha.real_result hb
  rintro x y hx hy rfl rfl
  have hne : (y == 0) ≠ true := fun hzero => h0 ((beq_zero_iff_value hy).mp hzero)
  rw [if_neg hne]
  exact ⟨_, rfl, is_real (div_exact hx hy h0 h)⟩

theorem Is.div (ha : a.Is p) (hb : b.Is q) (h0 : q ≠ 0) (h : IsDouble (p / q)) :
    ∃ c, a.div b = .ok c ∧ c.Is (p / q) := by
  have hreal := ha.divReal hb h0 h
  cases ha with
  | @whole m _ =>
    cases hb with
    | @whole n _ =>
      have hn : n ≠ 0 := by exact_mod_cast h0
      have hround := (rounds_nearest_div m.natAbs (Int.natAbs_pos.mpr hn)).isRounding (by positivity)
        (decide (m < 0) != decide (n < 0))
      have hv : factor (decide (m < 0) != decide (n < 0)) * (m.natAbs / n.natAbs : ℚ) = m / n := by
        rw [← factor_div, div_mul_div_comm, ← cast_eq_factor, ← cast_eq_factor]
      rw [hv] at hround
      have hexact := hround.exact h
      have hfinite : (nearest m.natAbs n.natAbs).isFinite = true := by
        have := hexact.1
        split at this
        · rwa [isFinite_neg] at this
        · exact this
      refine ⟨_, ?_, is_real hexact⟩
      rw [Amount.div, if_neg hn]
      dsimp only
      rw [if_pos hfinite]
    | real _ => exact hreal
  | real _ => exact hreal

/-! ## Powers -/

theorem fraction_pos (m : ℕ) (e : ℤ) : 0 < (fraction m e).2 := by
  rw [fraction]
  split
  · exact one_pos
  · exact Nat.pow_pos two_pos

theorem fraction_value (m : ℕ) (e : ℤ) :
    ((fraction m e).1 : ℚ) / (fraction m e).2 = m * 2 ^ e :=
  unscale_value 2 m e

theorem fraction_eq_iff {m : ℕ} {e : ℤ} {a b : ℕ} (hb : 0 < b) :
    (fraction m e).1 * b = a * (fraction m e).2 ↔ (m : ℚ) * 2 ^ e = a / b := by
  have hd : ((fraction m e).2 : ℚ) ≠ 0 := Nat.cast_ne_zero.mpr (fraction_pos m e).ne'
  rw [← fraction_value, div_eq_div_iff hd (Nat.cast_ne_zero.mpr hb.ne')]
  exact_mod_cast Iff.rfl

/-- A double that is a whole number is taken for one. -/
theorem floor_of_whole {y : Float} {n : ℤ} (hy : y.isFinite = true) (hn : (ofFloat y).value = n) :
    floor y = n ∧ isIntegral y = true := by
  obtain ⟨negative, m, e, hp⟩ := isFinite_iff.mp hy
  rw [hp, value] at hn
  have hsize : (m : ℚ) * 2 ^ e = (n.natAbs : ℕ) / (1 : ℕ) := by
    rw [Nat.cast_one, div_one, Nat.cast_natAbs, Int.cast_abs, ← hn, abs_mul, abs_factor, one_mul,
      abs_of_nonneg (by positivity)]
  have hfraction := (fraction_eq_iff one_pos).mpr hsize
  rw [mul_one] at hfraction
  have hden := fraction_pos m e
  constructor
  · have hsign : n = if negative then -(n.natAbs : ℤ) else n.natAbs := by
      rw [hsize, Nat.cast_one, div_one] at hn
      have : ((if negative then -(n.natAbs : ℤ) else n.natAbs : ℤ) : ℚ) = n := by
        rw [← hn]
        cases negative <;> simp [factor]
      exact_mod_cast this.symm
    rw [floor, hp]
    dsimp only
    rw [hfraction]
    have hup : (n.natAbs * (fraction m e).2 + (fraction m e).2 - 1) / (fraction m e).2 = n.natAbs := by
      rw [Nat.add_sub_assoc hden, Nat.add_comm, Nat.add_mul_div_right _ _ hden,
        Nat.div_eq_of_lt (by omega), Nat.zero_add]
    rw [hup, Nat.mul_div_cancel _ hden]
    exact hsign.symm
  · rw [isIntegral, hp]
    dsimp only
    by_cases he : 0 ≤ e
    · rw [decide_eq_true he, Bool.true_or]
    · have hmod : m % Nat.pow 2 (-e).toNat = 0 := by
        rw [fraction, if_neg he] at hfraction
        rw [show m = n.natAbs * Nat.pow 2 (-e).toNat from hfraction]
        exact Nat.mul_mod_left _ _
      rw [hmod, beq_self_eq_true, Bool.or_true]

/-- The power of a fraction as a fraction. -/
theorem powFraction_value {num den : ℕ} (hd : 0 < den) {n : ℤ} (h : num ≠ 0 ∨ 0 ≤ n) :
    0 < (powFraction num den n).2 ∧
      ((powFraction num den n).1 : ℚ) / (powFraction num den n).2 = ((num : ℚ) / den) ^ n := by
  rw [powFraction]
  split
  · next hn =>
    obtain ⟨k, rfl⟩ := Int.eq_ofNat_of_zero_le hn
    refine ⟨Nat.pow_pos hd, ?_⟩
    rw [Int.toNat_natCast, zpow_natCast, div_pow]
    simp only [Nat.pow_eq, Nat.cast_pow]
  · next hn =>
    obtain ⟨k, hk⟩ := Int.eq_ofNat_of_zero_le (show 0 ≤ -n by omega)
    obtain rfl : n = -(k : ℤ) := by omega
    refine ⟨Nat.pow_pos (Nat.pos_of_ne_zero (h.resolve_right hn)), ?_⟩
    rw [neg_neg, Int.toNat_natCast, zpow_neg, zpow_natCast, div_pow, inv_div]
    simp only [Nat.pow_eq, Nat.cast_pow]

theorem zpow_clamp {v : ℚ} (hv : v = 0 ∨ v = 1) {n : ℤ} (h : v ≠ 0 ∨ 0 ≤ n) :
    v ^ max (-1) (min n 1) = v ^ n := by
  rcases hv with rfl | rfl
  · rcases (h.resolve_left (not_not.mpr rfl)).eq_or_lt with rfl | hn
    · rfl
    · rw [zero_zpow _ hn.ne', zero_zpow _ (by omega)]
  · rw [one_zpow, one_zpow]

theorem factor_zpow (negative : Bool) (n : ℤ) :
    factor negative ^ n = factor (negative && n % 2 != 0) := by
  cases negative with
  | false => simp [factor]
  | true =>
    rcases Int.even_or_odd n with hn | hn
    · have : n % 2 = 0 := Int.even_iff.mp hn
      simp [factor, hn.neg_one_zpow, this]
    · have : n % 2 = 1 := Int.odd_iff.mp hn
      simp [factor, hn.neg_one_zpow, this]

/-- The double of a fraction that is one has the fraction for its parts. -/
theorem nearest_parts {a b : ℕ} (hb : 0 < b) (h : IsDouble ((a : ℚ) / b)) :
    ∃ l f, ofFloat (nearest a b) = .finite false l f ∧
      (fraction l f).1 * b = a * (fraction l f).2 := by
  have hround := rounds_nearest_div a hb
  have hv := ((hround.isRounding (by positivity) false).exact (by rwa [factor, if_neg Bool.false_ne_true,
    one_mul])).2
  cases hround with
  | infinite parts size =>
    have := h.lt_overflow
    rw [abs_of_nonneg (by positivity)] at this
    exact absurd size (not_le.mpr this)
  | @finite l f parts _ _ _ =>
    refine ⟨l, f, parts, (fraction_eq_iff hb).mpr ?_⟩
    simpa [parts, value, factor] using hv

/-- The exponent that is worked with is small and leads to the same power. -/
theorem exponent_clamp {num den : ℕ} (hd : 0 < den) {n : ℤ} (h0 : num ≠ 0 ∨ 0 ≤ n)
    (hv : IsDouble ((num : ℚ) / den)) (h : IsDouble (((num : ℚ) / den) ^ n)) {k : ℤ}
    (hk : k = if num = 0 ∨ num = den then max (-1) (min n 1) else n) :
    k.natAbs ≤ largestPower ∧ (num ≠ 0 ∨ 0 ≤ k) ∧ ((num : ℚ) / den) ^ k = ((num : ℚ) / den) ^ n := by
  have hd' : (den : ℚ) ≠ 0 := Nat.cast_ne_zero.mpr hd.ne'
  have hmax : largestPower = 1100 := rfl
  split at hk
  · next hcase =>
    have hone : (num : ℚ) / den = 0 ∨ (num : ℚ) / den = 1 := by
      rcases hcase with rfl | rfl
      · exact Or.inl (by rw [Nat.cast_zero, zero_div])
      · exact Or.inr (div_self hd')
    have hne : (num : ℚ) / den ≠ 0 ∨ 0 ≤ n :=
      h0.imp_left fun hnum => div_ne_zero (Nat.cast_ne_zero.mpr hnum) hd'
    refine ⟨by omega, h0.imp_right fun _ => by omega, ?_⟩
    rw [hk]
    exact zpow_clamp hone hne
  · next hcase =>
    obtain ⟨hnum, hden⟩ := not_or.mp hcase
    have hone : |(num : ℚ) / den| ≠ 1 := by
      rw [abs_of_nonneg (by positivity), Ne, div_eq_one_iff_eq hd', Nat.cast_inj]
      exact hden
    have hle := natAbs_le_of_isDouble_zpow hv (div_ne_zero (Nat.cast_ne_zero.mpr hnum) hd') hone h
    rw [hk]
    exact ⟨by omega, Or.inl hnum, rfl⟩

/-- A power that is a double is found exactly. -/
theorem exactPower?_eq {x y : Float} {n : ℤ} (hx : x.isFinite = true) (hy : y.isFinite = true)
    (hn : (ofFloat y).value = n) (h0 : (ofFloat x).value ≠ 0 ∨ 0 ≤ n)
    (h : IsDouble ((ofFloat x).value ^ n)) :
    ∃ r, exactPower? x y = some r ∧ r.isFinite = true ∧ (ofFloat r).value = (ofFloat x).value ^ n := by
  obtain ⟨hfloor, hintegral⟩ := floor_of_whole hy hn
  have hdouble := isDouble_value hx
  obtain ⟨negative, m, e, hp⟩ := isFinite_iff.mp hx
  have hden := fraction_pos m e
  have hfraction := fraction_value m e
  obtain ⟨num, hnum⟩ : ∃ num, num = (fraction m e).1 := ⟨_, rfl⟩
  obtain ⟨den, hden'⟩ : ∃ den, den = (fraction m e).2 := ⟨_, rfl⟩
  rw [← hden'] at hden
  rw [← hnum, ← hden'] at hfraction
  rw [hp, value, ← hfraction] at h h0 hdouble ⊢
  -- the size of the base and of the power, without their signs
  have hsize : IsDouble ((num : ℚ) / den) := by
    rw [← isDouble_abs_iff, abs_mul, abs_factor, one_mul] at hdouble
    exact isDouble_abs_iff.mp hdouble
  have hpower : IsDouble (((num : ℚ) / den) ^ n) := by
    rw [mul_zpow, factor_zpow, ← isDouble_abs_iff, abs_mul, abs_factor, one_mul] at h
    exact isDouble_abs_iff.mp h
  have hzero : num ≠ 0 ∨ 0 ≤ n := by
    apply h0.imp_left
    rintro hne rfl
    rw [Nat.cast_zero, zero_div, mul_zero] at hne
    exact hne rfl
  obtain ⟨k, hk⟩ : ∃ k, k = if num = 0 ∨ num = den then max (-1) (min n 1) else n := ⟨_, rfl⟩
  obtain ⟨hle, hzero, hkn⟩ := exponent_clamp hden hzero hsize hpower hk
  obtain ⟨hb, hab⟩ := powFraction_value hden hzero
  rw [hkn] at hab
  rw [← hab] at hpower
  obtain ⟨l, f, hparts, hcheck⟩ := nearest_parts hb hpower
  have hround := (rounds_nearest_div (powFraction num den k).1 hb).isRounding (by positivity)
    (negative && n % 2 != 0)
  have hv : factor (negative && n % 2 != 0) * (((powFraction num den k).1 : ℚ) /
      (powFraction num den k).2) = (factor negative * ((num : ℚ) / den)) ^ n := by
    rw [hab, mul_zpow, factor_zpow]
  rw [hv] at hround
  refine ⟨_, ?_, hround.exact h⟩
  have hguard : (!y.isFinite || !isIntegral y || decide (largestPower < k.natAbs)) = false := by
    rw [hy, hintegral, decide_eq_false (not_lt.mpr hle)]
    rfl
  rw [exactPower?, hp]
  dsimp only
  rw [← hnum, ← hden', hfloor, ← hk, hguard, if_neg Bool.false_ne_true, hparts]
  dsimp only
  rw [if_pos hcheck]

theorem powReal_eq {x y : Float} {n : ℤ} (hx : x.isFinite = true) (hy : y.isFinite = true)
    (hn : (ofFloat y).value = n) (h0 : (ofFloat x).value ≠ 0 ∨ 0 ≤ n)
    (h : IsDouble ((ofFloat x).value ^ n)) :
    ∃ r, powReal x y = .ok r ∧ r.isFinite = true ∧ (ofFloat r).value = (ofFloat x).value ^ n := by
  obtain ⟨r, hr, hfinite, hv⟩ := exactPower?_eq hx hy hn h0 h
  obtain ⟨-, hintegral⟩ := floor_of_whole hy hn
  have hzero : (x == 0 && decide (y < 0)) = false := by
    rw [Bool.and_eq_false_iff, decide_eq_false_iff_not]
    rcases h0 with h0 | h0
    · exact Or.inl (Bool.eq_false_iff.mpr fun k => h0 ((beq_zero_iff_value hx).mp k))
    · right
      intro hneg
      have := value_neg_of_lt hy hneg
      rw [hn] at this
      exact absurd (Int.cast_lt_zero.mp this) (not_lt.mpr h0)
  have hinf : r.isInf = false := by
    obtain ⟨a, m, e, hp⟩ := isFinite_iff.mp hfinite
    rw [← Bool.not_eq_true, isInf_iff]
    rintro ⟨b, hb⟩
    rw [hp] at hb
    cases hb
  refine ⟨r, ?_, hfinite, hv⟩
  rw [powReal, hzero, if_neg Bool.false_ne_true, hintegral, hr]
  simp [hinf]

/-- A power to a whole exponent of an exact amount that is no zero under a negative exponent. -/
theorem Is.pow (ha : a.Is p) {k : ℤ} (hk : IsDouble k) (h0 : p ≠ 0 ∨ 0 ≤ k) (h : IsDouble (p ^ k)) :
    ∃ c, a.pow (.whole k) = .ok c ∧ c.Is (p ^ k) := by
  have hreal : ∃ c, (do
      let x ← a.toReal
      let y ← (Amount.whole k).toReal
      return Amount.real (← powReal x y)) = Except.ok c ∧ c.Is (p ^ k) := by
    apply ha.real_result (.whole hk)
    rintro x y hx hy rfl hyk
    obtain ⟨r, hr, hexact⟩ := powReal_eq hx hy hyk h0 h
    rw [hr]
    exact ⟨_, rfl, is_real hexact⟩
  cases ha with
  | @whole m _ =>
    by_cases hk0 : 0 ≤ k
    · have hv : ((m ^ k.toNat : ℤ) : ℚ) = (m : ℚ) ^ k := by
        rw [Int.cast_pow, ← zpow_natCast, Int.toNat_of_nonneg hk0]
      rw [← hv] at h ⊢
      exact ⟨_, if_pos hk0, .whole h⟩
    · rw [Amount.pow, if_neg hk0]
      exact hreal
  | real _ => exact hreal

end Amount

end Immittance
