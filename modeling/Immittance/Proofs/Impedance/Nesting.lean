import Mathlib
import Immittance.Proofs.Decimal.RoundingError
import Immittance.Proofs.Impedance.Group

/-!
# Series groups in series groups

The evaluation of a series group starts from zero and adds the members from left to right. Addition of
doubles is not associative, so a group may not be dissolved anywhere; but one that comes first is, bit
for bit, as the sum that it leaves is never a negative zero and is kept when it is added to zero. A
circuit that is wrapped alone in a series group is that circuit, without the signs of negative zeros.
-/

set_option autoImplicit false

namespace Immittance

namespace Phasor

def unsignedZero (x : Float) : Float := if x = -0 then 0 else x

def unsigned (z : Phasor Float) : Phasor Float := ⟨unsignedZero z.re, unsignedZero z.im⟩

def Unsigned (z : Phasor Float) : Prop := z.re ≠ -0 ∧ z.im ≠ -0

theorem zero_add_eq_unsigned (z : Phasor Float) : Phasor.zero.add z = z.unsigned := by
  obtain ⟨re, im⟩ := z
  show (⟨0 + re, 0 + im⟩ : Phasor Float) = ⟨unsignedZero re, unsignedZero im⟩
  rw [Binary.zero_add_eq, Binary.zero_add_eq]
  rfl

theorem Unsigned.unsigned_eq {z : Phasor Float} (h : z.Unsigned) : z.unsigned = z := by
  obtain ⟨re, im⟩ := z
  obtain ⟨hre, him⟩ := h
  rw [unsigned, unsignedZero, unsignedZero, if_neg hre, if_neg him]

theorem unsigned_zero : (Phasor.zero : Phasor Float).Unsigned := by
  constructor
  · show (0 : Float) ≠ -0
    decide +kernel
  · show (0 : Float) ≠ -0
    decide +kernel

theorem Unsigned.add {z : Phasor Float} (h : z.Unsigned) (w : Phasor Float) :
    (z.add w).Unsigned := by
  constructor
  · intro hre
    exact h.1 (Binary.eq_neg_zero_of_add hre).1
  · intro him
    exact h.2 (Binary.eq_neg_zero_of_add him).1

end Phasor

open Phasor

theorem unsigned_of_seriesFrom {f : Float} {total z : Phasor Float} {cs : List (Circuit Float)}
    (ht : total.Unsigned) (h : seriesFrom f total cs = .ok z) : z.Unsigned := by
  obtain ⟨zs, -, rfl⟩ := seriesFrom_eq_ok_iff.mp h
  clear h
  induction zs generalizing total with
  | nil => exact ht
  | cons w zs ih => exact ih (ht.add w)

theorem series_impedance (f : Float) {cs : List (Circuit Float)} (h : cs ≠ []) :
    (Circuit.group .series cs).impedance f = seriesFrom f Phasor.zero cs := by
  cases cs with
  | nil => exact absurd rfl h
  | cons c cs => rw [Circuit.impedance]

theorem series_nested (f : Float) {cs : List (Circuit Float)} (h : cs ≠ [])
    (ds : List (Circuit Float)) : (Circuit.group .series (.group .series cs :: ds)).impedance f =
      (Circuit.group .series (cs ++ ds)).impedance f := by
  rw [series_impedance f (List.cons_ne_nil _ _), seriesFrom, series_impedance f h,
    series_impedance f (by simp [h]), seriesFrom_append]
  cases hz : seriesFrom f Phasor.zero cs with
  | error e => rfl
  | ok z =>
    show seriesFrom f (Phasor.zero.add z) ds = seriesFrom f z ds
    rw [zero_add_eq_unsigned, (unsigned_of_seriesFrom unsigned_zero hz).unsigned_eq]

theorem series_wrapped (f : Float) (c : Circuit Float) :
    (Circuit.group .series [c]).impedance f = (c.impedance f).map Phasor.unsigned := by
  rw [series_impedance f (List.cons_ne_nil _ _), seriesFrom]
  cases c.impedance f with
  | error e => rfl
  | ok z =>
    show seriesFrom f (Phasor.zero.add z) [] = .ok z.unsigned
    rw [zero_add_eq_unsigned, seriesFrom]

def Circuit.wrapped (c : Circuit Float) : Circuit Float := .group .series [c]

theorem series_wrapped_iterate (f : Float) {cs : List (Circuit Float)} (h : cs ≠ []) (n : ℕ) :
    (Circuit.wrapped^[n] (.group .series cs)).impedance f = (Circuit.group .series cs).impedance f := by
  induction n generalizing cs with
  | zero => rfl
  | succ n ih =>
    rw [Function.iterate_succ_apply, Circuit.wrapped, ih (List.cons_ne_nil _ _), series_nested f h,
      List.append_nil]

/-- Series groups that are nested on the left flatten bit for bit, impedances and faults. So wrapping a
series group any number of times changes nothing, and wrapping any other circuit at most the signs of
the zeros of its impedance. -/
theorem series_flatten (f : Float) :
    (∀ as bs : List (Circuit Float), as ≠ [] →
      (Circuit.group .series (.group .series as :: bs)).impedance f =
        (Circuit.group .series (as ++ bs)).impedance f) ∧
    (∀ (as : List (Circuit Float)) (n : ℕ), as ≠ [] →
      (Circuit.wrapped^[n] (.group .series as)).impedance f =
        (Circuit.group .series as).impedance f) ∧
    ∀ c : Circuit Float, c.wrapped.impedance f = (c.impedance f).map Phasor.unsigned :=
  ⟨fun _ bs h => series_nested f h bs, fun _ n h => series_wrapped_iterate f h n, series_wrapped f⟩

theorem series_flatten_decimals :
    let r := fun x : Float => Circuit.part ⟨.resistor, x⟩
    (Circuit.group .series [.group .series [r 0.1, r 0.2], r 0.3]).impedance 50 =
        (Circuit.group .series [r 0.1, r 0.2, r 0.3]).impedance 50 ∧
      (Circuit.wrapped^[3] (.group .series [r 0.1, r 0.2])).impedance 50 =
        (Circuit.group .series [r 0.1, r 0.2]).impedance 50 ∧
      (r (-0)).wrapped.impedance 50 = .ok ⟨0, 0⟩ := by
  intro r
  obtain ⟨hnested, hiterate, hwrapped⟩ := series_flatten 50
  refine ⟨hnested [r 0.1, r 0.2] [r 0.3] (List.cons_ne_nil _ _),
    hiterate [r 0.1, r 0.2] 3 (List.cons_ne_nil _ _), ?_⟩
  rw [hwrapped, Circuit.impedance]
  rfl

end Immittance
