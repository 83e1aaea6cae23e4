import Immittance.Document.Value
import Immittance.Quantity.Amount

/-!
# Registries of units

A registry reads a value as a quantity, knows whether a quantity is without dimension, and converts
quantities into hertz. Each of this can raise an error. A frequency is a number, which counts in hertz,
or anything else that the registry reads: without dimension it counts in hertz as it stands, otherwise
it is converted.
-/

set_option autoImplicit false

namespace Immittance

inductive Magnitude (α : Type) where
  | amount (a : Amount)
  | other (real : Except (Raised α) Float)

structure Registry (α : Type) where
  Units : Type
  quantity : Value α → Except (Raised α) (Magnitude α × Units)
  isDimensionless : Magnitude α × Units → Except (Raised α) Bool
  inHertz : Magnitude α × Units → Except (Raised α) (Magnitude α)

section
variable {α : Type} [Letter α]

def NumberFault.kind : NumberFault → ErrorKind
  | wholeDivision | realDivision | zeroPower => .zeroDivision
  | wholeTooLarge | quotientTooLarge | powerTooLarge => .overflow
  | notReal => .type

def NumberFault.raised (f : NumberFault) : Raised α := ⟨[f.kind], Letter.word f.message⟩

def Amount.asReal (a : Amount) : Except (Raised α) Float := a.toReal.mapError NumberFault.raised

def Magnitude.asReal : Magnitude α → Except (Raised α) Float
  | amount a => a.asReal
  | other real => real

def Registry.toHertz (R : Registry α) : Value α → Except (Raised α) Float
  | .int n => (Amount.whole n).asReal
  | .float x => .ok x
  | v => do
    let q ← R.quantity v
    if ← R.isDimensionless q then q.1.asReal else (← R.inHertz q).asReal

end

end Immittance
