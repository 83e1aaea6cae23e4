import Mathlib
import Immittance.Proofs.Decimal.Sign
import Immittance.Proofs.Impedance.Group

/-!
# Passive networks

Without negative resistors no impedance has a negative resistance. Without negative inductors and
without capacitors none has a negative reactance, and without negative capacitors and without
inductors none has a positive one. All this holds of doubles: sums keep the signs of the parts, and a
reciprocal, whose divisor is a sum of squares, keeps the one and turns the other.
-/

set_option autoImplicit false

namespace Immittance

open Binary Circuit

/-! ## Signs that do not come up -/

theorem zero_avoids {s : SignType} (hs : s ≠ 0) : floatSign Scalar.zero ≠ s := hs.symm

theorem add_avoids {x y : Float} {s : SignType} (hs : s ≠ 0) (hx : floatSign x ≠ s)
    (hy : floatSign y ≠ s) : floatSign (x + y) ≠ s := by
  intro h
  rcases floatSign_add x y with (h0 | hxy) | (h0 | hxy)
  · exact hs (h.symm.trans h0)
  · exact hx (hxy.symm.trans h)
  · exact hs (h.symm.trans h0)
  · exact hy (hxy.symm.trans h)

theorem Binary.Keeps.avoids {r a b s : SignType} (hr : Keeps r (a * b)) (hb : b ≠ -1) (ha : a ≠ s)
    (hs : s ≠ 0) : r ≠ s := by
  revert r a b s
  unfold Keeps
  decide

theorem Binary.Keeps.square {r a : SignType} (hr : Keeps r (a * a)) : r ≠ -1 := by
  revert r a
  unfold Keeps
  decide

theorem Binary.Keeps.turned {r a s : SignType} (hr : Keeps r (-1 * a)) (ha : a ≠ -s) (hs : s ≠ 0) :
    r ≠ s := by
  revert r a s
  unfold Keeps
  decide

theorem opposite_ne_zero {s : SignType} (hs : s ≠ 0) : -s ≠ 0 := fun h =>
  hs (SignType.neg_eq_zero_iff.mp h)

theorem neg_avoids {x : Float} {s : SignType} (hs : s ≠ 0) (hx : floatSign x ≠ s) :
    floatSign (-x) ≠ -s := by
  intro h
  rcases floatSign_neg x with h0 | hneg
  · exact hs (SignType.neg_eq_zero_iff.mp (h.symm.trans h0))
  · exact hx (neg_injective (hneg.symm.trans h))

theorem square_sign (z : Phasor Float) : floatSign z.square ≠ -1 :=
  add_avoids (by decide) (floatSign_mul z.re z.re).square (floatSign_mul z.im z.im).square

/-! ## What reciprocals keep -/

/-- A sign that no resistance has, no conductance has. -/
theorem kept_re {s : SignType} (hs : s ≠ 0) :
    KeptByGroups (fun z : Phasor Float => floatSign z.re ≠ s) fun y => floatSign y.re ≠ s := by
  have hreciprocal : ∀ z y : Phasor Float, floatSign z.re ≠ s → z.reciprocal? = some y →
      floatSign y.re ≠ s := by
    intro z y hz h
    obtain ⟨hne, rfl⟩ := reciprocal?_eq_some_iff.mp h
    exact (floatSign_div z.re hne).avoids (square_sign z) hz hs
  constructor
  · exact zero_avoids hs
  · exact fun z w => add_avoids hs
  · exact fun y x => add_avoids hs
  · exact hreciprocal
  · exact hreciprocal

/-- Where a reactance is never of one sign, a susceptance is never of the other. -/
theorem kept_im {s : SignType} (hs : s ≠ 0) :
    KeptByGroups (fun z : Phasor Float => floatSign z.im ≠ s) fun y => floatSign y.im ≠ -s := by
  have hreciprocal : ∀ r : SignType, r ≠ 0 → ∀ z y : Phasor Float, floatSign z.im ≠ r →
      z.reciprocal? = some y → floatSign y.im ≠ -r := by
    intro r hr z y hz h
    obtain ⟨hne, rfl⟩ := reciprocal?_eq_some_iff.mp h
    exact (floatSign_div (-z.im) hne).avoids (square_sign z) (neg_avoids hr hz) (opposite_ne_zero hr)
  have hneg : -s ≠ 0 := opposite_ne_zero hs
  constructor
  · exact zero_avoids hs
  · exact fun z w => add_avoids hs
  · exact fun y x => add_avoids hneg
  · exact hreciprocal s hs
  · intro y z hy h
    -- the second reciprocal turns the sign back
    have hz := hreciprocal (-s) hneg y z hy h
    rwa [neg_neg] at hz

/-! ## The parts -/

theorem part_impedance_cases {α : Type} [Scalar α] {f : α} {p : Part α} {z : Phasor α}
    (h : p.impedance f = .ok z) :
    (p.kind = .resistor ∧ z = ⟨p.value, Scalar.zero⟩) ∨
    (p.kind = .capacitor ∧ Scalar.isPositive f = true ∧ Scalar.isZero p.value = false ∧
      Scalar.isZero (Scalar.twoPi * f * p.value) = false ∧
      z = ⟨Scalar.zero, -Scalar.one / (Scalar.twoPi * f * p.value)⟩) ∨
    (p.kind = .inductor ∧ Scalar.isPositive f = true ∧
      z = ⟨Scalar.zero, Scalar.twoPi * f * p.value⟩) := by
  obtain ⟨kind, value⟩ := p
  rw [Part.impedance] at h
  cases kind with
  | resistor => exact Or.inl ⟨rfl, (Except.ok.inj h).symm⟩
  | capacitor =>
    dsimp only at h
    split_ifs at h with hf hv hcharge
    · exact Or.inr (Or.inl ⟨rfl, by simpa using hf, by simpa using hv, by simpa using hcharge,
        (Except.ok.inj h).symm⟩)
  | inductor =>
    dsimp only at h
    split_ifs at h with hf
    · exact Or.inr (Or.inr ⟨rfl, by simpa using hf, (Except.ok.inj h).symm⟩)

theorem reactance_avoids {f v : Float} {s : SignType} (hf : 0 < f) (hs : s ≠ 0)
    (hv : floatSign v ≠ s) : floatSign (Scalar.twoPi * f * v) ≠ s := by
  have homega : floatSign (Scalar.twoPi * f) ≠ -1 := by
    have h := floatSign_mul Scalar.twoPi f
    -- the product of two positive doubles may still vanish
    rw [floatSign_eq_one_iff.mpr hf] at h
    exact h.avoids (by decide) (by decide +kernel) (by decide)
  have h := floatSign_mul (Scalar.twoPi * f) v
  rw [mul_comm] at h
  exact h.avoids homega hv hs

theorem part_re_sign {f : Float} {p : Part Float} {z : Phasor Float} {s : SignType} (hs : s ≠ 0)
    (h : p.impedance f = .ok z) (hr : p.kind = .resistor → floatSign p.value ≠ s) :
    floatSign z.re ≠ s := by
  rcases part_impedance_cases h with ⟨hkind, rfl⟩ | ⟨-, -, -, -, rfl⟩ | ⟨-, -, rfl⟩
  · exact hr hkind
  · exact zero_avoids hs
  · exact zero_avoids hs

theorem part_im_sign {f : Float} {p : Part Float} {z : Phasor Float} {s : SignType} (hs : s ≠ 0)
    (h : p.impedance f = .ok z) (hl : p.kind = .inductor → floatSign p.value ≠ s)
    (hc : p.kind = .capacitor → floatSign p.value ≠ -s) : floatSign z.im ≠ s := by
  rcases part_impedance_cases h with ⟨-, rfl⟩ | ⟨hkind, hf, -, hne, rfl⟩ | ⟨hkind, hf, rfl⟩
  · exact zero_avoids hs
  · have hturned := floatSign_div (-Scalar.one) hne
    rw [show floatSign (-Scalar.one) = -1 by decide +kernel] at hturned
    exact hturned.turned (reactance_avoids (of_decide_eq_true hf) (opposite_ne_zero hs) (hc hkind)) hs
  · exact reactance_avoids (of_decide_eq_true hf) hs (hl hkind)

/-! ## Circuits -/

theorem resistance_sign {f : Float} {t : Circuit Float} {z : Phasor Float} {s : SignType}
    (hs : s ≠ 0) (h : t.impedance f = .ok z)
    (hr : ∀ v, (Circuit.part ⟨.resistor, v⟩).Inside t → floatSign v ≠ s) : floatSign z.re ≠ s := by
  apply (kept_re hs).holds t _ h
  intro p hp y hy
  apply part_re_sign hs hy
  intro hkind
  exact hr p.value (by rwa [← hkind])

theorem reactance_sign {f : Float} {t : Circuit Float} {z : Phasor Float} {s : SignType}
    (hs : s ≠ 0) (h : t.impedance f = .ok z)
    (hl : ∀ v, (Circuit.part ⟨.inductor, v⟩).Inside t → floatSign v ≠ s)
    (hc : ∀ v, (Circuit.part ⟨.capacitor, v⟩).Inside t → floatSign v ≠ -s) :
    floatSign z.im ≠ s := by
  apply (kept_im hs).holds t _ h
  intro p hp y hy
  apply part_im_sign hs hy
  · intro hkind
    exact hl p.value (by rwa [← hkind])
  · intro hkind
    exact hc p.value (by rwa [← hkind])

/-- Passive networks stay passive: without negative resistors there is no negative resistance,
without capacitors and negative inductors no negative reactance, without inductors and negative
capacitors no positive one. The resistors have no say in the sign of a reactance. -/
theorem passive (t : Circuit Float) (f : Float) {z : Phasor Float} (h : t.impedance f = .ok z) :
    ((∀ v, (Circuit.part ⟨.resistor, v⟩).Inside t → ¬v < 0) → ¬z.re < 0) ∧
    ((∀ v, ¬(Circuit.part ⟨.capacitor, v⟩).Inside t) →
      (∀ v, (Circuit.part ⟨.inductor, v⟩).Inside t → ¬v < 0) → ¬z.im < 0) ∧
    ((∀ v, ¬(Circuit.part ⟨.inductor, v⟩).Inside t) →
      (∀ v, (Circuit.part ⟨.capacitor, v⟩).Inside t → ¬v < 0) → ¬0 < z.im) := by
  simp only [← floatSign_eq_neg_one_iff, ← floatSign_eq_one_iff]
  constructor
  · intro hr
    exact resistance_sign (by decide) h hr
  constructor
  · intro hc hl
    exact reactance_sign (by decide) h hl fun v hv => absurd hv (hc v)
  · intro hl hc
    exact reactance_sign (by decide) h (fun v hv => absurd hv (hl v)) hc

theorem passive_filters :
    let lowpass := Circuit.group .series
      [.part ⟨.resistor, (50 : Float)⟩, .part ⟨.inductor, (0.01 : Float)⟩]
    let shunt := Circuit.group .parallel
      [.part ⟨.resistor, (50 : Float)⟩, .part ⟨.capacitor, (1e-6 : Float)⟩]
    (∃ z, lowpass.impedance 100 = .ok z ∧ ¬z.re < 0 ∧ ¬z.im < 0) ∧
    ∃ z, shunt.impedance 100 = .ok z ∧ ¬z.re < 0 ∧ ¬0 < z.im := by
  intro lowpass shunt
  have hlow : (lowpass.impedance 100).isOk = true := by decide +kernel
  have hshunt : (shunt.impedance 100).isOk = true := by decide +kernel
  constructor
  · obtain ⟨z, hz⟩ := exists_ok_of_isOk hlow
    obtain ⟨hre, him, -⟩ := passive lowpass 100 hz
    refine ⟨z, hz, hre ?_, him ?_ ?_⟩
    · simp [lowpass, inside_group_iff, inside_part_iff]
      decide
    · simp [lowpass, inside_group_iff, inside_part_iff]
    · simp [lowpass, inside_group_iff, inside_part_iff]
      decide
  · obtain ⟨z, hz⟩ := exists_ok_of_isOk hshunt
    obtain ⟨hre, -, him⟩ := passive shunt 100 hz
    refine ⟨z, hz, hre ?_, him ?_ ?_⟩
    · simp [shunt, inside_group_iff, inside_part_iff]
      decide
    · simp [shunt, inside_group_iff, inside_part_iff]
    · simp [shunt, inside_group_iff, inside_part_iff]
      decide

end Immittance
