import Mathlib
import Immittance.Proofs.Decimal.Extremes
import Immittance.Proofs.Impedance.Group

/-!
# When a reciprocal exists

The divisor of a reciprocal is a rounded sum of rounded squares. It is zero exactly if both parts are so
small that their squares are rounded to zero, and not only if they are zero. A parallel group of
resistors of one sign meets this at both ends: a resistance with a vanishing square has no reciprocal,
and the reciprocal of one whose square overflows is zero.
-/

set_option autoImplicit false

namespace Immittance

open Binary Circuit

theorem Phasor.reciprocal?_eq_none_iff {z : Phasor Float} : z.reciprocal? = none ↔
    (z.re.isFinite = true ∧ (ofFloat z.re).value ^ 2 ≤ 2 ^ (-1075 : ℤ)) ∧
    (z.im.isFinite = true ∧ (ofFloat z.im).value ^ 2 ≤ 2 ^ (-1075 : ℤ)) := by
  rw [← sq_isZero_iff, ← sq_isZero_iff, ← add_squares_isZero_iff]
  show (if (z.re * z.re + z.im * z.im == 0) = true then none else some _) = none ↔ _
  by_cases h : (z.re * z.re + z.im * z.im == 0) = true
  · rw [if_pos h]
    exact iff_of_true rfl h
  · rw [if_neg h]
    exact iff_of_false (by simp) h

theorem reciprocal?_of_isZero {z : Phasor Float} (hre : (z.re == 0) = true)
    (him : (z.im == 0) = true) : z.reciprocal? = none :=
  Phasor.reciprocal?_eq_none_iff.mpr ⟨small_of_isZero hre, small_of_isZero him⟩

/-! ## Resistors of one sign -/

def conductance (r : Float) : Phasor Float := ⟨r / (r * r), -0 / (r * r)⟩

theorem reciprocal?_resistance {r : Float} (hr : r.isFinite = true) {y : Phasor Float} :
    (⟨r, 0⟩ : Phasor Float).reciprocal? = some y ↔
      2 ^ (-1075 : ℤ) < (ofFloat r).value ^ 2 ∧ y = conductance r := by
  have hsmall := small_of_isZero isZero_zero
  have hzero := sq_isZero_iff.mpr hsmall
  have hiff : (r * r == 0) = false ↔ 2 ^ (-1075 : ℤ) < (ofFloat r).value ^ 2 := by
    rw [Bool.eq_false_iff, ne_eq, sq_isZero_iff, ← not_le]
    simp [hr]
  rw [← hiff]
  by_cases h : (r * r == 0) = true
  · have hnone := Phasor.reciprocal?_eq_none_iff (z := ⟨r, 0⟩)
    rw [hnone.mpr ⟨sq_isZero_iff.mp h, hsmall⟩]
    simp [h]
  · rw [Bool.not_eq_true] at h
    have hsquare : (⟨r, 0⟩ : Phasor Float).square = r * r := by
      show r * r + 0 * 0 = r * r
      exact add_zero_of_ne_zero h hzero
    rw [reciprocal?_eq_some_iff, hsquare]
    rfl

/-- Resistors in parallel admit reciprocals if no square of a resistance vanishes. -/
theorem forall₂_admits_resistors_iff {f : Float} {rs : List Float}
    (hr : ∀ r ∈ rs, r.isFinite = true) {ys : List (Phasor Float)} :
    List.Forall₂ (Admits f) (rs.map fun r => .part ⟨.resistor, r⟩) ys ↔
      (∀ r ∈ rs, 2 ^ (-1075 : ℤ) < (ofFloat r).value ^ 2) ∧ ys = rs.map conductance := by
  induction rs generalizing ys with
  | nil => simp
  | cons r rs ih =>
    obtain ⟨hr, hrs⟩ := List.forall_mem_cons.mp hr
    have hadmits : ∀ y, (Circuit.part ⟨.resistor, r⟩).Admits f y ↔
        (⟨r, 0⟩ : Phasor Float).reciprocal? = some y := by
      intro y
      simp [Admits, Circuit.impedance, Part.impedance]
      rfl
    rw [List.map_cons, List.forall₂_cons_left_iff, List.forall_mem_cons]
    simp only [hadmits, reciprocal?_resistance hr, ih hrs, List.map_cons]
    constructor
    · rintro ⟨y, ys, ⟨hlow, rfl⟩, ⟨hall, rfl⟩, rfl⟩
      exact ⟨⟨hlow, hall⟩, rfl⟩
    · rintro ⟨⟨hlow, hall⟩, rfl⟩
      exact ⟨_, _, ⟨hlow, rfl⟩, ⟨hall, rfl⟩, rfl⟩

theorem overflow_lt_sq : overflow < (2 ^ (512 : ℤ)) ^ 2 := by
  have hpow : ((2 : ℚ) ^ (512 : ℤ)) ^ 2 = 2 ^ 53 * 2 ^ (971 : ℤ) := by
    rw [sq, ← zpow_natCast, ← zpow_add₀ (by norm_num), ← zpow_add₀ (by norm_num)]
    rfl
  rw [overflow, hpow]
  exact mul_lt_mul_of_pos_right (by norm_num) (by positivity)

/-- A rounded square that has not vanished is positive and at most twice the square. -/
theorem square_bounds {r : Float} (hr : r.isFinite = true)
    (hlow : 2 ^ (-1075 : ℤ) < (ofFloat r).value ^ 2) (hlt : (ofFloat r).value ^ 2 < overflow) :
    (r * r).isFinite = true ∧ 0 < (ofFloat (r * r)).value ∧
      (ofFloat (r * r)).value ≤ 2 * (ofFloat r).value ^ 2 := by
  have hround := isRounding_sq hr
  have hfin := hround.isFinite_iff.mpr (by rwa [abs_sq])
  have hdist : |(ofFloat (r * r)).value - (ofFloat r).value ^ 2| < (ofFloat r).value ^ 2 := by
    rcases hround.error hfin with h | h
    · have hpos : (0 : ℚ) < (ofFloat r).value ^ 2 := lt_trans (by positivity) hlow
      rw [abs_sq] at h
      exact h.trans_lt (mul_lt_of_lt_one_left hpos (by norm_num))
    · exact h.trans_lt hlow
  obtain ⟨h1, h2⟩ := abs_lt.mp hdist
  refine ⟨hfin, ?_, ?_⟩ <;> linarith

def leastConductance : ℚ := (2 ^ 52 : ℕ) * 2 ^ (-565 : ℤ)

theorem isMantissa_leastConductance : IsMantissa (2 ^ 52) (-565) :=
  ⟨by norm_num, by norm_num, by norm_num, Or.inr le_rfl⟩

theorem leastConductance_eq : leastConductance = 2 ^ (-513 : ℤ) := by
  rw [leastConductance, Nat.cast_pow, ← zpow_natCast, Nat.cast_ofNat, ← zpow_add₀ (by norm_num)]
  rfl

theorem conductance_of_lt {r : Float} {negative : Bool} (hr : r.isFinite = true)
    (hsign : 0 < factor negative * (ofFloat r).value)
    (hlow : 2 ^ (-1075 : ℤ) < (ofFloat r).value ^ 2) (hlt : (ofFloat r).value ^ 2 < overflow) :
    AtLeast negative leastConductance (conductance r).re := by
  obtain ⟨hfin, hpos, hle⟩ := square_bounds hr hlow hlt
  apply (isRounding_div hr hfin hpos.ne').atLeast isMantissa_leastConductance
  rw [← mul_div_assoc, le_div_iff₀ hpos]
  rw [← factor_mul_sq negative] at hle hlt
  generalize factor negative * (ofFloat r).value = w at hsign hle hlt
  have hw : w < 2 ^ (512 : ℤ) :=
    lt_of_pow_lt_pow_left₀ 2 (by positivity) (hlt.trans overflow_lt_sq)
  have hone : (2 : ℚ) ^ (-513 : ℤ) * (2 * 2 ^ (512 : ℤ)) = 1 := by
    rw [← zpow_one_add₀ (by norm_num), ← zpow_add₀ (by norm_num)]
    rfl
  rw [← leastConductance, leastConductance_eq]
  calc (2 : ℚ) ^ (-513 : ℤ) * (ofFloat (r * r)).value ≤ 2 ^ (-513 : ℤ) * (2 * w ^ 2) :=
        mul_le_mul_of_nonneg_left hle (by positivity)
    _ = 2 ^ (-513 : ℤ) * (2 * w) * w := by ring
    _ ≤ 2 ^ (-513 : ℤ) * (2 * 2 ^ (512 : ℤ)) * w := by gcongr
    _ = w := by rw [hone, one_mul]

theorem conductance_of_overflow {r : Float} (hr : r.isFinite = true)
    (h : overflow ≤ (ofFloat r).value ^ 2) : ((conductance r).re == 0) = true := by
  obtain ⟨negative, hinf⟩ := (isRounding_sq hr).infinite (h.trans (le_abs_self _))
  exact div_infinite hr hinf

theorem susceptance_isZero {r : Float} (hr : r.isFinite = true)
    (hlow : 2 ^ (-1075 : ℤ) < (ofFloat r).value ^ 2) : ((conductance r).im == 0) = true := by
  have hzero : ((-0 : Float) == 0) = true := beq_zero_iff.mpr ⟨true, ofFloat_neg_zero⟩
  rcases lt_or_ge ((ofFloat r).value ^ 2) overflow with hlt | hge
  · obtain ⟨hfin, hpos, -⟩ := square_bounds hr hlow hlt
    apply zero_div_isZero hzero _ hfin
    rw [Bool.eq_false_iff, ne_eq, beq_zero_iff_value hfin]
    exact hpos.ne'
  · obtain ⟨negative, hinf⟩ := (isRounding_sq hr).infinite (hge.trans (le_abs_self _))
    exact div_infinite (isFinite_of_beq_zero hzero) hinf

theorem conductance_sign {r : Float} {negative : Bool} (hr : r.isFinite = true)
    (hsign : 0 < factor negative * (ofFloat r).value)
    (hlow : 2 ^ (-1075 : ℤ) < (ofFloat r).value ^ 2) : AtLeast negative 0 (conductance r).re := by
  rcases lt_or_ge ((ofFloat r).value ^ 2) overflow with hlt | hge
  · apply (conductance_of_lt hr hsign hlow hlt).mono
    rw [leastConductance]
    positivity
  · exact atLeast_zero_of_isZero (conductance_of_overflow hr hge)

/-- Summands of one sign do not take away from each other. -/
theorem foldl_atLeast {negative : Bool} {k : ℕ} {l : ℤ} (hk : IsMantissa k l) {y : Phasor Float}
    {ys : List (Phasor Float)} (hsign : ∀ x ∈ y :: ys, AtLeast negative 0 x.re)
    (h : ∃ x ∈ y :: ys, AtLeast negative (k * 2 ^ l) x.re) :
    AtLeast negative (k * 2 ^ l) (ys.foldl Phasor.add y).re := by
  induction ys generalizing y with
  | nil =>
    obtain ⟨x, hx, h⟩ := h
    obtain rfl := List.mem_singleton.mp hx
    exact h
  | cons x ys ih =>
    obtain ⟨hy, hys⟩ := List.forall_mem_cons.mp hsign
    obtain ⟨hx, hys⟩ := List.forall_mem_cons.mp hys
    have hzero : AtLeast negative 0 (y.add x).re := by
      have hsum := hy.add hx isMantissa_zero (by simp)
      rwa [Nat.cast_zero, zero_mul] at hsum
    apply ih (List.forall_mem_cons.mpr ⟨hzero, hys⟩)
    obtain ⟨w, hw, h⟩ := h
    rcases List.mem_cons.mp hw with rfl | hw
    · exact ⟨_, List.mem_cons_self, h.add hx hk (by simp)⟩
    rcases List.mem_cons.mp hw with rfl | hw
    · exact ⟨_, List.mem_cons_self, hy.add h hk (by simp)⟩
    · exact ⟨w, List.mem_cons_of_mem _ hw, h⟩

/-- What is above `leastConductance` is not taken for zero. -/
theorem exists_reciprocal_of_atLeast {y : Phasor Float} {negative : Bool}
    (h : AtLeast negative leastConductance y.re) : ∃ z, y.reciprocal? = some z := by
  rw [← Option.ne_none_iff_exists']
  intro hnone
  obtain ⟨⟨hfin, hsmall⟩, -⟩ := Phasor.reciprocal?_eq_none_iff.mp hnone
  have hle := h hfin
  rw [leastConductance_eq] at hle
  have hpow : (2 : ℚ) ^ (-1075 : ℤ) < (2 ^ (-513 : ℤ)) ^ 2 := by
    rw [← zpow_natCast, ← zpow_mul]
    exact zpow_lt_zpow_right₀ (by norm_num) (by norm_num)
  have hlarge : ((2 : ℚ) ^ (-513 : ℤ)) ^ 2 ≤ (factor negative * (ofFloat y.re).value) ^ 2 :=
    pow_le_pow_left₀ (by positivity) hle 2
  rw [factor_mul_sq] at hlarge
  exact absurd hsmall (not_le.mpr (hpow.trans_le hlarge))

/-- A parallel group of resistors of one sign has an impedance if no square of a resistance vanishes
and not all of them overflow. -/
theorem resistors_evaluate_iff {f : Float} {rs : List Float} {negative : Bool}
    (hr : ∀ r ∈ rs, r.isFinite = true)
    (hsign : ∀ r ∈ rs, 0 < factor negative * (ofFloat r).value) :
    (∃ z, (Circuit.group .parallel (rs.map fun r => .part ⟨.resistor, r⟩)).impedance f = .ok z) ↔
      (∀ r ∈ rs, 2 ^ (-1075 : ℤ) < (ofFloat r).value ^ 2) ∧
      ∃ r ∈ rs, (ofFloat r).value ^ 2 < overflow := by
  simp only [parallel_impedance_eq_ok_iff, forall₂_admits_resistors_iff hr]
  constructor
  · rintro ⟨z, y, ys, ⟨hlow, hys⟩, hz⟩
    refine ⟨hlow, ?_⟩
    -- otherwise every reciprocal is zero, and so is their sum
    by_contra! hall
    have hzeros : ∀ x ∈ y :: ys, (x.re == 0) = true ∧ (x.im == 0) = true := by
      rw [hys, List.forall_mem_map]
      intro r hmem
      exact ⟨conductance_of_overflow (hr r hmem) (hall r hmem),
        susceptance_isZero (hr r hmem) (hlow r hmem)⟩
    obtain ⟨hy, hys⟩ := List.forall_mem_cons.mp hzeros
    obtain ⟨hre, him⟩ := foldl_add_keeps
      (fun z w hz hw => ⟨add_isZero hz.1 hw.1, add_isZero hz.2 hw.2⟩) hy hys
    rw [reciprocal?_of_isZero hre him] at hz
    exact absurd hz (by simp)
  · rintro ⟨hlow, r, hmem, hlt⟩
    have hmember : conductance r ∈ rs.map conductance := List.mem_map_of_mem hmem
    obtain ⟨y, ys, hys⟩ := List.exists_cons_of_ne_nil (List.ne_nil_of_mem hmember)
    have hnonneg : ∀ x ∈ y :: ys, AtLeast negative 0 x.re := by
      rw [← hys, List.forall_mem_map]
      intro r hmem
      exact conductance_sign (hr r hmem) (hsign r hmem) (hlow r hmem)
    rw [hys] at hmember
    have hleast := conductance_of_lt (hr r hmem) (hsign r hmem) (hlow r hmem) hlt
    have htotal := foldl_atLeast isMantissa_leastConductance hnonneg ⟨_, hmember, hleast⟩
    obtain ⟨z, hz⟩ := exists_reciprocal_of_atLeast htotal
    exact ⟨z, y, ys, ⟨hlow, hys.symm⟩, hz⟩

theorem resistors_of_one_sign {f : Float} {rs : List Float} (hr : ∀ r ∈ rs, r.isFinite = true)
    (hsign : (∀ r ∈ rs, 0 < r) ∨ ∀ r ∈ rs, r < 0) :
    (∃ z, (Circuit.group .parallel (rs.map fun r => .part ⟨.resistor, r⟩)).impedance f = .ok z) ↔
      (∀ r ∈ rs, 2 ^ (-1075 : ℤ) < (ofFloat r).value ^ 2) ∧
      ∃ r ∈ rs, (ofFloat r).value ^ 2 < overflow := by
  rcases hsign with hsign | hsign
  · have hpos : ∀ r ∈ rs, 0 < factor false * (ofFloat r).value := by
      intro r hmem
      rw [factor, if_neg Bool.false_ne_true, one_mul]
      exact value_pos (hr r hmem) (hsign r hmem)
    exact resistors_evaluate_iff hr hpos
  · have hneg : ∀ r ∈ rs, 0 < factor true * (ofFloat r).value := by
      intro r hmem
      rw [factor, if_pos rfl, neg_one_mul, Left.neg_pos_iff]
      exact value_neg_of_lt (hr r hmem) (hsign r hmem)
    exact resistors_evaluate_iff hr hneg

end Immittance
