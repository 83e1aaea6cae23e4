import Mathlib
import Immittance.Proofs.Impedance.Passive

/-!
# Resistive networks

A network of resistors does not see the frequency. At any two frequencies it has the same impedance or
the same fault at the same place, and only the fault's own record of the frequency differs. The
impedance is a resistance: it has no reactance, unless the arithmetic ends in what is no number.
-/

set_option autoImplicit false

namespace Immittance

section
variable {α : Type}

def Circuit.Resistive (t : Circuit α) : Prop :=
  ∀ p, (Circuit.part p).Inside t → p.kind = .resistor

theorem Circuit.Resistive.member {w : Wiring} {cs : List (Circuit α)}
    (h : (Circuit.group w cs).Resistive) {c : Circuit α} (hc : c ∈ cs) : c.Resistive :=
  fun p hp => h p (Circuit.inside_of_mem w hc hp)

def Fault.movedTo (g : α) (e : Fault α) : Fault α := { e with frequency := g }

end

section
variable {α : Type} [Scalar α]

def Circuit.Alike (f g : α) (c : Circuit α) : Prop :=
  c.impedance g = (c.impedance f).mapError (Fault.movedTo g)

theorem part_alike (f g : α) {p : Part α} (h : p.kind = .resistor) : (Circuit.part p).Alike f g := by
  obtain ⟨kind, value⟩ := p
  obtain rfl : kind = .resistor := h
  rw [Circuit.Alike, Circuit.impedance, Circuit.impedance]
  rfl

theorem empty_alike (f g : α) (w : Wiring) : (Circuit.group w []).Alike f g := by
  rw [Circuit.Alike, empty_impedance, empty_impedance]
  rfl

theorem inverse_alike (f g : α) (place : Circuit α) (z : Phasor α) :
    inverse g place z = (inverse f place z).mapError (Fault.movedTo g) := by
  rw [inverse, inverse]
  cases z.reciprocal? with
  | none => rfl
  | some y => rfl

theorem seriesFrom_alike {f g : α} (total : Phasor α) {cs : List (Circuit α)}
    (h : ∀ c ∈ cs, c.Alike f g) :
    seriesFrom g total cs = (seriesFrom f total cs).mapError (Fault.movedTo g) := by
  induction cs generalizing total with
  | nil =>
    rw [seriesFrom, seriesFrom]
    rfl
  | cons c cs ih =>
    obtain ⟨hc, hcs⟩ := List.forall_mem_cons.mp h
    rw [seriesFrom, seriesFrom, mapError_bind, hc]
    congr 1
    funext z
    exact ih (total.add z) hcs

theorem parallelFrom_alike {f g : α} (place : Circuit α) (total : Phasor α) {cs : List (Circuit α)}
    (h : ∀ c ∈ cs, c.Alike f g) :
    parallelFrom g place total cs =
      (parallelFrom f place total cs).mapError (Fault.movedTo g) := by
  induction cs generalizing total with
  | nil =>
    rw [parallelFrom, parallelFrom]
    rfl
  | cons c cs ih =>
    obtain ⟨hc, hcs⟩ := List.forall_mem_cons.mp h
    rw [parallelFrom, parallelFrom, mapError_bind, hc]
    congr 1
    funext z
    rw [mapError_bind, inverse_alike f g]
    congr 1
    funext y
    exact ih (total.add y) hcs

/-- A group sees the frequency only through its members. -/
theorem group_alike {f g : α} (w : Wiring) {cs : List (Circuit α)} (h : ∀ c ∈ cs, c.Alike f g) :
    (Circuit.group w cs).Alike f g := by
  cases cs with
  | nil => exact empty_alike f g w
  | cons c cs =>
    obtain ⟨hc, hcs⟩ := List.forall_mem_cons.mp h
    rw [Circuit.Alike]
    cases w with
    | series =>
      rw [Circuit.impedance, Circuit.impedance]
      exact seriesFrom_alike Phasor.zero h
    | parallel =>
      rw [Circuit.impedance, Circuit.impedance, mapError_bind, hc]
      congr 1
      funext z
      rw [mapError_bind, inverse_alike f g]
      congr 1
      funext y
      rw [mapError_bind, parallelFrom_alike _ _ hcs]
      congr 1
      funext x
      exact inverse_alike f g _ x

theorem resistive_alike (f g : α) (t : Circuit α) (h : t.Resistive) : t.Alike f g := by
  induction t using Circuit.by_members with
  | part p => exact part_alike f g (h p (Circuit.inside_self _))
  | group w cs ih => exact group_alike w fun c hc => ih c hc (h.member hc)

end

theorem no_reactance {t : Circuit Float} (ht : t.Resistive) {f : Float} {z : Phasor Float}
    (h : t.impedance f = .ok z) : floatSign z.im = 0 := by
  have hkind : ∀ k, k ≠ Kind.resistor → ∀ v, ¬(Circuit.part ⟨k, v⟩).Inside t :=
    fun k hk v hv => hk (ht ⟨k, v⟩ hv)
  have hne : ∀ s : SignType, s ≠ 0 → floatSign z.im ≠ s := fun s hs =>
    reactance_sign hs h (fun v hv => absurd hv (hkind .inductor (by decide) v))
      fun v hv => absurd hv (hkind .capacitor (by decide) v)
  by_contra h0
  exact hne _ h0 rfl

/-- Resistive networks do not see the frequency: two runs of the evaluation have the same impedance, or
faults that differ only in the frequency that they record; and an impedance has no reactance. -/
theorem resistive_at_any_frequency (t : Circuit Float) (ht : t.Resistive) (f g : Float) :
    t.impedance g = (t.impedance f).mapError (Fault.movedTo g) ∧
    ∀ z, t.impedance f = .ok z → (z.im == 0) = true ∨ z.im.isNaN = true :=
  ⟨resistive_alike f g t ht, fun _ h => floatSign_eq_zero_iff.mp (no_reactance ht h)⟩

theorem resistive_ladder :
    let ladder := Circuit.group .parallel [.part ⟨.resistor, (100 : Float)⟩,
      .group .series [.part ⟨.resistor, (50 : Float)⟩, .part ⟨.resistor, (50 : Float)⟩]]
    ladder.Resistive ∧
    ladder.impedance (0 / 0) = (ladder.impedance 50).mapError (Fault.movedTo (0 / 0)) ∧
    ∃ z, ladder.impedance 50 = .ok z ∧ ((z.im == 0) = true ∨ z.im.isNaN = true) := by
  intro ladder
  have hladder : ladder.Resistive := by
    intro p hp
    simp [ladder, Circuit.inside_group_iff, Circuit.inside_part_iff] at hp
    rcases hp with rfl | rfl <;> rfl
  have hok : (ladder.impedance 50).isOk = true := by decide +kernel
  obtain ⟨hruns, hreactance⟩ := resistive_at_any_frequency ladder hladder 50 (0 / 0)
  obtain ⟨z, hz⟩ := exists_ok_of_isOk hok
  exact ⟨hladder, hruns, z, hz, hreactance z hz⟩

end Immittance
