import Mathlib
import Immittance.Impedance

/-!
# Evaluation with every division checked

Impedance once more, with nothing taken for granted: each quotient fails where its divisor is zero,
an admittance that was never begun cannot be turned over, and only a group answers for divisions by
zero inside of it. None of this is ever met: the strict evaluation agrees with the impedance and
fails with its faults alone.
-/

set_option autoImplicit false

namespace Immittance

inductive Halt (α : Type) where
  | invalid (details : String) (place : Circuit α) (frequency : α)
  | computation (details : String) (place : Circuit α) (frequency : α)
  | zeroDivision (message : String)
  | noAdmittance

def Halt.ofFault {α : Type} (e : Fault α) : Halt α :=
  if e.cause.isArithmetic then .computation e.cause.message e.place e.frequency
  else .invalid e.cause.message e.place e.frequency

section
variable {α : Type} [Scalar α]

def quotient (a b : α) : Except (Halt α) α :=
  if Scalar.isZero b then .error (.zeroDivision "float division by zero") else .ok (a / b)

def Phasor.turned (z : Phasor α) : Except (Halt α) (Phasor α) :=
  if Scalar.isZero z.square then .error (.zeroDivision Phasor.noReciprocal)
  else do
    let re ← quotient z.re z.square
    let im ← quotient (-z.im) z.square
    return ⟨re, im⟩

def Part.strict (f : α) (p : Part α) : Except (Halt α) (Phasor α) :=
  match p.kind with
  | .resistor => .ok ⟨p.value, Scalar.zero⟩
  | .capacitor =>
    if !Scalar.isPositive f then .error (.invalid "frequency must be > 0" (.part p) f)
    else if Scalar.isZero p.value then
      .error (.invalid "capacitance must be non-zero" (.part p) f)
    else if Scalar.isZero (Scalar.twoPi * f * p.value) then
      .error (.computation
        "Computation error: capacitive reactance is unbounded (2*pi*f*C underflows to zero)"
        (.part p) f)
    else do
      let im ← quotient (-Scalar.one) (Scalar.twoPi * f * p.value)
      return ⟨Scalar.zero, im⟩
  | .inductor =>
    if !Scalar.isPositive f then .error (.invalid "frequency must be > 0" (.part p) f)
    else .ok ⟨Scalar.zero, Scalar.twoPi * f * p.value⟩

def caught {β : Type} (place : Circuit α) (f : α) : Except (Halt α) β → Except (Halt α) β
  | .error (.zeroDivision message) =>
    .error (.computation ("Computation error: " ++ message) place f)
  | x => x

def turnedOver : Option (Phasor α) → Except (Halt α) (Phasor α)
  | none => .error .noAdmittance
  | some y => y.turned

mutual

def Circuit.strict (f : α) : Circuit α → Except (Halt α) (Phasor α)
  | .part p => p.strict f
  | .group w [] => .error (.invalid "Connection node contains no children" (.group w []) f)
  | .group .series (c :: cs) =>
    caught (.group .series (c :: cs)) f (strictSum f Phasor.zero (c :: cs))
  | .group .parallel (c :: cs) =>
    caught (.group .parallel (c :: cs)) f (strictAdmittance f none (c :: cs) >>= turnedOver)

def strictSum (f : α) (total : Phasor α) : List (Circuit α) → Except (Halt α) (Phasor α)
  | [] => .ok total
  | c :: cs => do
    let z ← c.strict f
    strictSum f (total.add z) cs

def strictAdmittance (f : α) (begun : Option (Phasor α)) :
    List (Circuit α) → Except (Halt α) (Option (Phasor α))
  | [] => .ok begun
  | c :: cs => do
    let z ← c.strict f
    let y ← z.turned
    strictAdmittance f (some (begun.elim y fun total => total.add y)) cs

end

end

/-! ## Agreement -/

section
variable {α β γ : Type}

theorem ofFault_empty (c : Circuit α) (f : α) :
    Halt.ofFault ⟨.empty, c, f⟩ = .invalid "Connection node contains no children" c f := rfl

theorem ofFault_reciprocal (c : Circuit α) (f : α) :
    Halt.ofFault ⟨.reciprocal, c, f⟩ =
      .computation ("Computation error: " ++ Phasor.noReciprocal) c f := rfl

theorem caught_bind (place : Circuit α) (f : α) (x : Except (Halt α) β)
    (k : β → Except (Halt α) γ) :
    caught place f (x >>= k) = caught place f x >>= fun b => caught place f (k b) := by
  cases x with
  | ok b => rfl
  | error h => cases h <;> rfl

theorem caught_ofFault (place : Circuit α) (f : α) (x : Except (Fault α) β) :
    caught place f (x.mapError Halt.ofFault) = x.mapError Halt.ofFault := by
  cases x with
  | ok b => rfl
  | error e =>
    change caught place f (.error (Halt.ofFault e)) = .error (Halt.ofFault e)
    rw [Halt.ofFault]
    split <;> rfl

theorem mapError_bind {ε η : Type} (g : ε → η) (x : Except ε β) (k : β → Except ε γ) :
    (x >>= k).mapError g = x.mapError g >>= fun b => (k b).mapError g := by
  cases x <;> rfl

end

section
variable {α : Type} [Scalar α]

theorem quotient_of_nonzero {a b : α} (h : Scalar.isZero b = false) : quotient a b = .ok (a / b) := by
  rw [quotient, h]
  rfl

theorem caught_turned (place : Circuit α) (f : α) (z : Phasor α) :
    caught place f z.turned = (inverse f place z).mapError Halt.ofFault := by
  rw [Phasor.turned, inverse, Phasor.reciprocal?]
  cases h : Scalar.isZero z.square with
  | true =>
    simp only [if_true, Except.mapError, ofFault_reciprocal]
    rfl
  | false =>
    simp only [Bool.false_eq_true, if_false, quotient_of_nonzero h]
    rfl

theorem part_strict_eq (f : α) (p : Part α) :
    p.strict f = (p.impedance f).mapError Halt.ofFault := by
  obtain ⟨kind, value⟩ := p
  cases kind with
  | resistor => rfl
  | capacitor =>
    simp only [Part.strict, Part.impedance]
    cases Scalar.isPositive f with
    | false => rfl
    | true =>
      cases Scalar.isZero value with
      | true => rfl
      | false =>
        cases hw : Scalar.isZero (Scalar.twoPi * f * value) with
        | true => rfl
        | false =>
          simp only [quotient_of_nonzero hw]
          rfl
  | inductor =>
    simp only [Part.strict, Part.impedance]
    cases Scalar.isPositive f <;> rfl

mutual

/-- The strict evaluation of a circuit is its impedance, and its failures are the circuit's faults. -/
theorem strict_eq (f : α) : (c : Circuit α) →
    c.strict f = (c.impedance f).mapError Halt.ofFault
  | .part p => by
    rw [Circuit.strict, Circuit.impedance, part_strict_eq]
  | .group w [] => by
    rw [Circuit.strict, Circuit.impedance, Except.mapError, ofFault_empty]
  | .group .series (c :: cs) => by
    rw [Circuit.strict, Circuit.impedance, strictSum_eq f _ (c :: cs), caught_ofFault]
  | .group .parallel (c :: cs) => by
    have hover : ∀ y : Phasor α, caught (.group .parallel (c :: cs)) f (turnedOver (some y)) =
        (inverse f (.group .parallel (c :: cs)) y).mapError Halt.ofFault := caught_turned _ f
    have hlist := fun y => strictAdmittance_eq f (.group .parallel (c :: cs)) y cs
    have hmember := strict_eq f c
    rw [Circuit.strict, Circuit.impedance, strictAdmittance]
    simp only [bind_assoc, caught_bind, mapError_bind, caught_turned, hmember, caught_ofFault,
      Option.elim_none, hlist, pure_bind, hover]

theorem strictSum_eq (f : α) (total : Phasor α) : (cs : List (Circuit α)) →
    strictSum f total cs = (seriesFrom f total cs).mapError Halt.ofFault
  | [] => by
    rw [strictSum, seriesFrom]
    rfl
  | c :: cs => by
    rw [strictSum, seriesFrom, strict_eq f c, mapError_bind]
    congr 1
    funext z
    exact strictSum_eq f (total.add z) cs

/-- An admittance that has begun stays begun, and within its group it is the group's admittance. -/
theorem strictAdmittance_eq (f : α) (place : Circuit α) (total : Phasor α) :
    (cs : List (Circuit α)) →
    caught place f (strictAdmittance f (some total) cs) =
      (parallelFrom f place total cs).mapError Halt.ofFault >>= fun y => pure (some y)
  | [] => by
    rw [strictAdmittance, parallelFrom]
    rfl
  | c :: cs => by
    have hrest := fun y => strictAdmittance_eq f place (total.add y) cs
    have hmember := strict_eq f c
    rw [strictAdmittance, parallelFrom]
    simp only [bind_assoc, caught_bind, mapError_bind, caught_turned, hmember, caught_ofFault,
      Option.elim_some, hrest]

end

end

end Immittance
