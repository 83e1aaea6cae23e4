import Mathlib
import Immittance.Quantity.Formula
import Immittance.Quantity.Registry
import Immittance.Proofs.Quantity.Amount
import Immittance.Proofs.Results

/-!
# Systems of units

A formula of whole numbers, units, products, quotients and powers means an exact number of a product
of units, whatever the units are. A registry goes by a system of units if a text that it reads as a
formula comes to the number and the units that the formula means, as long as the numbers on the way are
doubles, if it knows what has no dimension, and if it turns frequencies into their exact numbers of
hertz and nothing else into hertz.

What becomes of a text is then determined by what it means: a frequency becomes its exact number of
hertz, and what is neither a frequency nor without dimension is an error. Only what has no dimension is
taken with its coefficient, and not with the size of its units.
-/

set_option autoImplicit false

namespace Immittance

open Binary

/-! ## Units -/

def IsWhole (v : ℚ) : Prop := ∃ n : ℕ, v = n

structure UnitScale (υ δ : Type) where
  dimension : υ → δ →₀ ℤ
  factors : υ → List (ℚ × ℤ)
  positive : ∀ u, ∀ p ∈ factors u, 0 < p.1

namespace UnitScale

variable {υ δ : Type} (S : UnitScale υ δ)

def unitSize (u : υ) : ℚ := ((S.factors u).map fun p => p.1 ^ p.2).prod

noncomputable def exponents (c : υ →₀ ℤ) : δ →₀ ℤ := c.sum fun u k => k • S.dimension u

noncomputable def size (c : υ →₀ ℤ) : ℚ := c.prod fun u k => S.unitSize u ^ k

def Moderate (c : υ →₀ ℤ) : Prop :=
  ∀ u ∈ c.support, ∀ p ∈ S.factors u, p.1 ^ (c u * p.2) ≤ 2 ^ 1023

variable {c d : υ →₀ ℤ}

end UnitScale

/-! ## Meanings -/

structure Meaning (υ : Type) where
  coefficient : ℚ
  units : υ →₀ ℤ

namespace Formula

inductive Exponent : Formula → ℤ → Prop
  | number (n : ℤ) : Exponent (.number (.whole n)) n
  | plus {e : Formula} {k : ℤ} (whole : Exponent e k) : Exponent (.unary .plus e) k
  | minus {e : Formula} {k : ℤ} (whole : Exponent e k) : Exponent (.unary .minus e) (-k)
  | times {d e : Formula} {j k : ℤ} (left : Exponent d j) (right : Exponent e k) :
      Exponent (.binary .times d e) (j * k)
  | power {d e : Formula} {j : ℤ} {k : ℕ} (left : Exponent d j) (right : Exponent e k) :
      Exponent (.binary .power d e) (j ^ k)

inductive Denotes {υ : Type} (named : List Char → υ → Prop) (within : ℚ → Prop) :
    Formula → Meaning υ → Prop
  | number {n : ℤ} (range : within n) : Denotes named within (.number (.whole n)) ⟨n, 0⟩
  | unit {s : List Char} {u : υ} (stands : named s u) :
      Denotes named within (.name s) ⟨1, .single u 1⟩
  | plus {f : Formula} {m : Meaning υ} (operand : Denotes named within f m) :
      Denotes named within (.unary .plus f) m
  | minus {f : Formula} {m : Meaning υ} (operand : Denotes named within f m) :
      Denotes named within (.unary .minus f) ⟨-m.coefficient, m.units⟩
  | times {f g : Formula} {m n : Meaning υ} (left : Denotes named within f m)
      (right : Denotes named within g n) (range : within (m.coefficient * n.coefficient)) :
      Denotes named within (.binary .times f g)
        ⟨m.coefficient * n.coefficient, m.units + n.units⟩
  | divide {f g : Formula} {m n : Meaning υ} (left : Denotes named within f m)
      (right : Denotes named within g n) (nonzero : n.coefficient ≠ 0)
      (range : within (m.coefficient / n.coefficient)) :
      Denotes named within (.binary .divide f g)
        ⟨m.coefficient / n.coefficient, m.units - n.units⟩
  | power {f e : Formula} {m : Meaning υ} {k : ℤ} (base : Denotes named within f m)
      (exponent : Exponent e k) (small : within k) (nonzero : m.coefficient ≠ 0 ∨ 0 ≤ k)
      (range : within (m.coefficient ^ k)) :
      Denotes named within (.binary .power f e) ⟨m.coefficient ^ k, k • m.units⟩

end Formula

/-! ## Registries -/

theorem Registry.toHertz_text {α : Type} [Letter α] (R : Registry α) (s : List α) :
    R.toHertz (.text s) = R.quantity (.text s) >>= fun q => R.isDimensionless q >>= fun b =>
      if b then q.1.asReal else R.inHertz q >>= Magnitude.asReal :=
  rfl

/-- How a registry is understood: its units and what they measure, the dimension of frequencies, which
texts are which formulas, what units names stand for, and what products of units its own ones are. -/
structure UnitSystem {α : Type} (R : Registry α) where
  Unit : Type
  Dimension : Type
  scale : UnitScale Unit Dimension
  frequency : Dimension →₀ ℤ
  reads : List α → Formula → Prop
  named : List Char → Unit → Prop
  stands : R.Units → (Unit →₀ ℤ) → Prop

namespace UnitSystem

variable {α : Type} [Letter α] {R : Registry α} (S : UnitSystem R)

/-- The text means the number of units, and all numbers on the way are doubles. -/
def Means (s : List α) (m : Meaning S.Unit) : Prop :=
  ∃ f, S.reads s f ∧ f.Denotes S.named IsDouble m

noncomputable def dimension (m : Meaning S.Unit) : S.Dimension →₀ ℤ := S.scale.exponents m.units

noncomputable def value (m : Meaning S.Unit) : ℚ := m.coefficient * S.scale.size m.units

inductive Outcome (m : Meaning S.Unit) : Except (Raised α) Float → Prop
  | bare {x : Float} (dimensionless : S.dimension m = 0) (finite : x.isFinite = true)
      (coefficient : (ofFloat x).value = m.coefficient) : Outcome m (.ok x)
  | frequency {x : Float} (dimension : S.dimension m = S.frequency)
      (finite : x.isFinite = true) (value : (ofFloat x).value = S.value m) : Outcome m (.ok x)
  | mismatch {e : Raised α} (dimensional : S.dimension m ≠ 0)
      (other : S.dimension m ≠ S.frequency) (kind : e.kinds.head? = some .dimensionality) :
      Outcome m (.error e)

end UnitSystem

end Immittance
