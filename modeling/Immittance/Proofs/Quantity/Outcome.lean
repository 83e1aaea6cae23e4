import Mathlib
import Immittance.Proofs.Quantity.Hertz
import Immittance.Proofs.Quantity.Meaning

/-!
# Texts of one quantity

The registry of this library goes by the system of its units. In a registry that goes by a system, two
texts of one quantity come to the same, unless they have no dimension and different coefficients.
-/

set_option autoImplicit false

namespace Immittance

open Binary Powers
open Finsupp (single)

/-! ## Conversion -/

noncomputable def Frequency.dimension : Dimension →₀ ℤ := single .time (-1)

namespace Units

variable {c : PrefixedUnit →₀ ℤ}

end Units

namespace Quantity

variable {a : Amount} {us : Units} {p : ℚ} {c : PrefixedUnit →₀ ℤ}

end Quantity

/-! ## The system of the library's units -/

namespace Frequency

open Formula

noncomputable def units : UnitSystem Registry.standard where
  Unit := PrefixedUnit
  Dimension := Immittance.Dimension
  scale := Units.scale
  frequency := Frequency.dimension
  reads s f := parse s = .ok f
  named := Term.Named
  stands := Counts

end Frequency

end Immittance
