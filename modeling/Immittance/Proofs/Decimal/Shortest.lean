import Mathlib
import Immittance.Decimal.Digits
import Immittance.Proofs.Decimal.Value

/-!
# Shortest digits

The digits chosen for a positive double denote it: the grid points that are tried read back by the
choice itself, and on the grid of seventeen digits the nearest point is always near enough.
-/

set_option autoImplicit false

namespace Immittance

namespace Digits

/-! ## The power of the first digit -/

theorem powerOf_bounds {num den : ℕ} (hn : 0 < num) (hd : 0 < den) :
    (10 : ℚ) ^ powerOf num den ≤ (num : ℚ) / den ∧
      (num : ℚ) / den < 10 ^ (powerOf num den + 1) := by
  have hn' : (0 : ℚ) < num := by exact_mod_cast hn
  have hd' : (0 : ℚ) < den := by exact_mod_cast hd
  rw [powerOf]
  by_cases h : den ≤ num
  · rw [if_pos h]
    have hq : 0 < num / den := Nat.div_pos h hd
    have hpos := digitCount_pos (num / den)
    have hlo : den * 10 ^ (digitCount (num / den) - 1) ≤ num :=
      le_trans (Nat.mul_le_mul_left den (pow_digitCount_le hq)) (Nat.mul_div_le num den)
    have hhi : num < den * 10 ^ digitCount (num / den) := by
      rw [Nat.mul_comm, ← Nat.div_lt_iff_lt_mul hd]
      exact lt_pow_digitCount _
    have hlo' : (den : ℚ) * 10 ^ (digitCount (num / den) - 1) ≤ num := by exact_mod_cast hlo
    have hhi' : (num : ℚ) < den * 10 ^ digitCount (num / den) := by exact_mod_cast hhi
    have h1 : ((digitCount (num / den) : ℤ) - 1) = (digitCount (num / den) - 1 : ℕ) := by omega
    rw [sub_add_cancel, h1, zpow_natCast, zpow_natCast, le_div_iff₀ hd', div_lt_iff₀ hd']
    constructor <;> linarith
  · rw [if_neg h]
    have hq : 0 < den / num := Nat.div_pos (by omega) hn
    have hpos := digitCount_pos (den / num)
    have hlo : num * 10 ^ (digitCount (den / num) - 1) ≤ den :=
      le_trans (Nat.mul_le_mul_left num (pow_digitCount_le hq)) (Nat.mul_div_le den num)
    have hhi : den < num * 10 ^ digitCount (den / num) := by
      rw [Nat.mul_comm, ← Nat.div_lt_iff_lt_mul hn]
      exact lt_pow_digitCount _
    obtain ⟨d, hdd⟩ : ∃ d, digitCount (den / num) = d + 1 := ⟨_, (Nat.sub_add_cancel hpos).symm⟩
    simp only [hdd, Nat.add_sub_cancel, Nat.pow_eq] at hlo hhi ⊢
    have hle : ∀ k : ℕ, (10 : ℚ) ^ (-(k : ℤ)) ≤ (num : ℚ) / den ↔ den ≤ num * 10 ^ k := by
      intro k
      rw [le_div_iff₀ hd', zpow_neg, zpow_natCast, inv_mul_le_iff₀ (by positivity), mul_comm]
      exact_mod_cast Iff.rfl
    have hlt : ∀ k : ℕ, (num : ℚ) / den < (10 : ℚ) ^ (-(k : ℤ)) ↔ num * 10 ^ k < den := by
      intro k
      rw [div_lt_iff₀ hd', zpow_neg, zpow_natCast, lt_inv_mul_iff₀ (by positivity), mul_comm]
      exact_mod_cast Iff.rfl
    by_cases hk : den ≤ num * 10 ^ d
    · -- the fraction is a power of ten
      obtain ⟨c, rfl⟩ : ∃ c, d = c + 1 := by
        cases d with
        | zero => omega
        | succ c => exact ⟨c, rfl⟩
      have h1 : -((((c + 1 + 1 : ℕ) : ℤ)) - 1) = -((c + 1 : ℕ) : ℤ) := by omega
      have h2 : -((c + 1 : ℕ) : ℤ) + 1 = -(c : ℤ) := by omega
      rw [if_pos hk, h1, h2]
      refine ⟨(hle _).mpr hk, (hlt _).mpr ?_⟩
      have : 0 < num * 10 ^ c := by positivity
      rw [pow_succ] at hlo
      linarith
    · have h2 : -((d + 1 : ℕ) : ℤ) + 1 = -(d : ℤ) := by omega
      rw [if_neg hk, h2]
      exact ⟨(hle _).mpr hhi.le, (hlt _).mpr (not_le.mp hk)⟩

/-! ## Grid points -/

theorem strip_spec (c : ℕ) (hc : 0 < c) : 0 < strip c ∧ ∃ j : ℕ, c = strip c * 10 ^ j := by
  induction c using strip.induct with
  | case1 c h ih =>
    obtain ⟨hpos, j, hj⟩ := ih (by omega)
    rw [strip, dif_pos h]
    refine ⟨hpos, j + 1, ?_⟩
    rw [pow_succ, ← mul_assoc, ← hj]
    omega
  | case2 c h =>
    rw [strip, dif_neg h]
    exact ⟨hc, 0, by simp⟩

def place (d : Digits) : ℤ := d.power - digitCount d.coefficient + 1

structure Denotes (d : Digits) (x : Float) : Prop where
  pos : 0 < d.coefficient
  eq : Decimal.nearest d.coefficient d.place = x

theorem ofGrid_denotes {n : ℕ} (hn : 0 < n) (power : ℤ) {c : ℕ} (hlo : 10 ^ (n - 1) ≤ c)
    (hhi : c ≤ 10 ^ n) : (ofGrid n power c).Denotes (numeral n power c) := by
  have hc : 0 < c := lt_of_lt_of_le (by positivity) hlo
  obtain ⟨hs, j, hj⟩ := strip_spec c hc
  have hval : (c : ℚ) * 10 ^ (0 : ℤ) = strip c * 10 ^ (j : ℤ) := by
    rw [zpow_zero, mul_one, zpow_natCast]
    exact_mod_cast hj
  have hcount := scale_unique hc hs hval
  have hplace : (ofGrid n power c).place = power - n + 1 + j := by
    by_cases h : 10 ^ n ≤ c
    · have hk : digitCount c = n + 1 := digitCount_eq h (by rw [pow_succ]; omega)
      simp only [place, ofGrid, Nat.pow_eq, if_pos h]
      omega
    · have hk : digitCount c = n - 1 + 1 :=
        digitCount_eq hlo (by rw [Nat.sub_add_cancel hn]; omega)
      simp only [place, ofGrid, Nat.pow_eq, if_neg h]
      omega
  refine ⟨hs, ?_⟩
  rw [hplace, numeral]
  apply Decimal.nearest_congr hs hc
  rw [zpow_add₀ (by norm_num), zpow_natCast]
  show (strip c : ℚ) * _ = _
  have hj' : (c : ℚ) = strip c * 10 ^ j := by exact_mod_cast hj
  rw [hj']
  ring

theorem scaled_pos (num : ℕ) {den : ℕ} (hd : 0 < den) (p : ℤ) : 0 < (scaled num den p).2 :=
  scale_pos (by omega : 0 < 10) num hd p

theorem scaled_value (num den : ℕ) (p : ℤ) :
    ((scaled num den p).1 : ℚ) / (scaled num den p).2 = (num : ℚ) / den / 10 ^ p :=
  scale_value 10 num den p

/-- The grid points around a fraction have as many digits as the grid, or are the power of ten at its
end. -/
theorem point_bounds {num den n : ℕ} (hn : 0 < num) (hd : 0 < den) (h0 : 0 < n) {a b c : ℕ}
    (hab : scaled num den (powerOf num den - n + 1) = (a, b)) (hlo : a / b ≤ c)
    (hhi : c ≤ a / b + 1) : 10 ^ (n - 1) ≤ c ∧ c ≤ 10 ^ n := by
  obtain ⟨h1, h2⟩ := powerOf_bounds hn hd
  have hb := scaled_pos num hd (powerOf num den - n + 1)
  have hval := scaled_value num den (powerOf num den - n + 1)
  rw [hab] at hb hval
  dsimp only at hb hval
  have hb' : (0 : ℚ) < b := by exact_mod_cast hb
  have hp : (0 : ℚ) < 10 ^ (powerOf num den - n + 1) := by positivity
  have hle : 10 ^ (n - 1) ≤ a / b := by
    have h : (10 : ℚ) ^ (n - 1) ≤ (a : ℚ) / b := by
      rw [hval, le_div_iff₀ hp, ← zpow_natCast, ← zpow_add₀ (by norm_num)]
      have hexp : ((n - 1 : ℕ) : ℤ) + (powerOf num den - n + 1) = powerOf num den := by omega
      rwa [hexp]
    rw [le_div_iff₀ hb'] at h
    rw [Nat.le_div_iff_mul_le hb]
    exact_mod_cast h
  have hlt : a / b < 10 ^ n := by
    have h : (a : ℚ) / b < 10 ^ n := by
      rw [hval, div_lt_iff₀ hp, ← zpow_natCast, ← zpow_add₀ (by norm_num)]
      have hexp : (n : ℤ) + (powerOf num den - n + 1) = powerOf num den + 1 := by omega
      rwa [hexp]
    rw [div_lt_iff₀ hb'] at h
    rw [Nat.div_lt_iff_lt_mul hb]
    exact_mod_cast h
  omega

/-! ## Reading back -/

theorem nearest_bits (c : ℕ) (e : ℤ) :
    ∃ n ≤ Binary.infinityBits, Decimal.nearest c e = Float.ofBits n.toUInt64 := by
  have hb : ∀ num den, ∃ n ≤ Binary.infinityBits,
      Binary.nearest num den = Float.ofBits n.toUInt64 := by
    intro num den
    rw [Binary.nearest]
    split
    · exact ⟨0, Nat.zero_le _, rfl⟩
    · exact ⟨_, min_le_right _ _, rfl⟩
  rw [Decimal.nearest]
  split_ifs
  · exact ⟨0, Nat.zero_le _, rfl⟩
  · exact ⟨_, le_rfl, rfl⟩
  · exact ⟨0, Nat.zero_le _, rfl⟩
  · exact hb _ _
  · exact hb _ _

theorem denotes_of_readingBack {x : Float} {m : ℕ} {e : ℤ}
    (hx : Binary.ofFloat x = .finite false m e) {num den n : ℕ} (hn : 0 < num) (hd : 0 < den)
    (h0 : 0 < n) {d : Digits} (h : readingBack? x num den (powerOf num den) n = some d) :
    d.Denotes x := by
  rw [readingBack?] at h
  obtain ⟨a, b, hab⟩ : ∃ a b, scaled num den (powerOf num den - n + 1) = (a, b) := ⟨_, _, rfl⟩
  rw [hab] at h
  dsimp only at h
  obtain ⟨c, hc, rfl⟩ := Option.map_eq_some_iff.mp h
  have hmem := List.mem_of_find?_eq_some hc
  have hback := List.find?_some hc
  obtain ⟨hlo, hhi⟩ := roundHalfEven_bounds a b
  have hcand : a / b ≤ c ∧ c ≤ a / b + 1 := by
    simp only [List.mem_cons, List.not_mem_nil, or_false] at hmem
    rcases hmem with rfl | rfl
    · exact ⟨hlo, hhi⟩
    · split_ifs <;> omega
  obtain ⟨hp, hq⟩ := point_bounds hn hd h0 hab hcand.1 hcand.2
  have hpoint := ofGrid_denotes h0 (powerOf num den) hp hq
  have hnum : numeral n (powerOf num den) c = x := by
    obtain ⟨k, hk, hbits⟩ := nearest_bits c (powerOf num den - n + 1)
    rw [numeral] at hback ⊢
    rw [hbits] at hback ⊢
    exact (Binary.beq_iff hx hk).mp hback
  rwa [hnum] at hpoint

/-- On the grid of seventeen digits the nearest point is near to the double, as the grid has more
points than there are mantissas. -/
theorem near_seventeen {num den m : ℕ} {e : ℤ} (hn : 0 < num) (hd : 0 < den)
    (hm : Binary.IsMantissa m e) (hv : (num : ℚ) / den = m * 2 ^ e) {a b : ℕ}
    (hab : scaled num den (powerOf num den - (17 : ℕ) + 1) = (a, b)) :
    Binary.Near ((roundHalfEven a b : ℚ) * 10 ^ (powerOf num den - (17 : ℕ) + 1)) m e := by
  obtain ⟨h1, -⟩ := powerOf_bounds hn hd
  have hb := scaled_pos num hd (powerOf num den - (17 : ℕ) + 1)
  have hval := scaled_value num den (powerOf num den - (17 : ℕ) + 1)
  rw [hab] at hb hval
  have herr := roundHalfEven_error (a := a) hb
  dsimp only at hval herr
  have hsplit : (10 : ℚ) ^ (powerOf num den - (17 : ℕ) + 1) * 10 ^ 16 = 10 ^ powerOf num den := by
    rw [← zpow_natCast, ← zpow_add₀ (by norm_num)]
    congr 1
    push_cast
    ring
  rw [hval, hv] at herr
  rw [hv, ← hsplit] at h1
  have hq : (0 : ℚ) < 10 ^ (powerOf num den - (17 : ℕ) + 1) := by positivity
  generalize (10 : ℚ) ^ (powerOf num den - (17 : ℕ) + 1) = q at *
  have he : (0 : ℚ) < 2 ^ e := by positivity
  have hlt : (m : ℚ) < (2 ^ 53 : ℕ) := by exact_mod_cast hm.lt
  push_cast at hlt
  rw [abs_le, le_sub_iff_add_le, le_div_iff₀ hq, sub_le_iff_le_add, div_le_iff₀ hq] at herr
  obtain ⟨hlo, hhi⟩ := herr
  -- half a unit of the last digit is less than half a step between doubles
  have hunit : q < 2 ^ e := by nlinarith
  refine ⟨by linarith, by linarith, ?_⟩
  rintro rfl
  have hquarter : q < 2 ^ e / 2 := by
    push_cast at h1
    linarith
  linarith

/-- The shortest digits of a positive double denote it. -/
theorem shortest_denotes {x : Float} {m : ℕ} {e : ℤ} (hx : Binary.ofFloat x = .finite false m e)
    (h0 : 0 < m) {num den : ℕ} (hn : 0 < num) (hd : 0 < den)
    (hv : (num : ℚ) / den = m * 2 ^ e) : (shortest x num den).Denotes x := by
  rw [shortest]
  split
  · next d hfind =>
    obtain ⟨i, -, hi⟩ := List.exists_of_findSome?_eq_some hfind
    exact denotes_of_readingBack hx hn hd (Nat.succ_pos i) hi
  · obtain ⟨a, b, hab⟩ : ∃ a b, scaled num den (powerOf num den - (17 : ℕ) + 1) = (a, b) :=
      ⟨_, _, rfl⟩
    obtain ⟨hlo, hhi⟩ := roundHalfEven_bounds a b
    obtain ⟨hp, hq⟩ := point_bounds hn hd (by omega) hab hlo hhi
    have hm := Binary.isMantissa_of_finite hx
    have hnear := near_seventeen hn hd hm hv hab
    have hc : 0 < roundHalfEven a b := lt_of_lt_of_le (by positivity) hp
    have hpoint := ofGrid_denotes (by omega) (powerOf num den) hp hq
    have hnum : numeral 17 (powerOf num den) (roundHalfEven a b) = x := by
      rw [numeral, Decimal.nearest_of_near hc hm h0 hnear, Binary.ofBits_of_finite hx]
    rw [hnum] at hpoint
    rw [rounded, hab]
    exact hpoint

end Digits

end Immittance
