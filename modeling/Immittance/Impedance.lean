import Immittance.Circuit
import Immittance.Phasor

/-!
# Impedance

The impedance of a circuit at a frequency: a resistor has its value, a capacitor the negative inverse
of angular frequency times value, an inductor angular frequency times value. In series impedances
add; in parallel their reciprocals add and the sum is turned over again.

A circuit that has no impedance is at fault in one of its circuits, which the fault names together
with the frequency. A fault inside a member passes through every group around it unchanged. Groups
may be nested without a limit.
-/

set_option autoImplicit false

namespace Immittance

inductive Cause where
  | frequency
  | capacitance
  | reactance
  | empty
  | reciprocal
deriving DecidableEq, Repr

namespace Cause

def message : Cause → String
  | frequency => "frequency must be > 0"
  | capacitance => "capacitance must be non-zero"
  | reactance =>
    "Computation error: capacitive reactance is unbounded (2*pi*f*C underflows to zero)"
  | empty => "Connection node contains no children"
  | reciprocal => "Computation error: " ++ Phasor.noReciprocal

def isArithmetic : Cause → Bool
  | reactance | reciprocal => true
  | frequency | capacitance | empty => false

end Cause

structure Fault (α : Type) where
  cause : Cause
  place : Circuit α
  frequency : α

section
variable {α : Type} [Scalar α]

def Part.impedance (f : α) (p : Part α) : Except (Fault α) (Phasor α) :=
  match p.kind with
  | .resistor => .ok ⟨p.value, Scalar.zero⟩
  | .capacitor =>
    if !Scalar.isPositive f then .error ⟨.frequency, .part p, f⟩
    else if Scalar.isZero p.value then .error ⟨.capacitance, .part p, f⟩
    else
      let admittance := Scalar.twoPi * f * p.value
      if Scalar.isZero admittance then .error ⟨.reactance, .part p, f⟩
      else .ok ⟨Scalar.zero, -Scalar.one / admittance⟩
  | .inductor =>
    if !Scalar.isPositive f then .error ⟨.frequency, .part p, f⟩
    else .ok ⟨Scalar.zero, Scalar.twoPi * f * p.value⟩

def inverse (f : α) (place : Circuit α) (z : Phasor α) : Except (Fault α) (Phasor α) :=
  match z.reciprocal? with
  | some y => .ok y
  | none => .error ⟨.reciprocal, place, f⟩

mutual

def Circuit.impedance (f : α) : Circuit α → Except (Fault α) (Phasor α)
  | .part p => p.impedance f
  | .group w [] => .error ⟨.empty, .group w [], f⟩
  | .group .series (c :: cs) => seriesFrom f Phasor.zero (c :: cs)
  | .group .parallel (c :: cs) => do
    let place := Circuit.group .parallel (c :: cs)
    let first ← inverse f place (← c.impedance f)
    let admittance ← parallelFrom f place first cs
    inverse f place admittance

def seriesFrom (f : α) (total : Phasor α) : List (Circuit α) → Except (Fault α) (Phasor α)
  | [] => .ok total
  | c :: cs => do
    let z ← c.impedance f
    seriesFrom f (total.add z) cs

def parallelFrom (f : α) (place : Circuit α) (total : Phasor α) :
    List (Circuit α) → Except (Fault α) (Phasor α)
  | [] => .ok total
  | c :: cs => do
    let y ← inverse f place (← c.impedance f)
    parallelFrom f place (total.add y) cs

end

end

end Immittance
