import Immittance.Quantity.Formula
import Immittance.Quantity.Registry

/-!
# Frequencies in hertz

The registry that comes with this library reads a text as a formula. It knows the units of frequency,
time and length, those of circuits and a few others, with the decimal prefixes. Of the wider language of
quantities it leaves out all other units, binary prefixes, whole quotients and remainders, and powers
that are written in words or in raised digits.
-/

set_option autoImplicit false

namespace Immittance

inductive FrequencyFault where
  | notQuantity (shown : List Char)
  | emptyText
  | formula (fault : FormulaFault)

namespace FrequencyFault

def signText : Formula.Sign → List Char
  | .plus => ['+']
  | .minus => ['-']
  | .times => ['*']
  | .divide => ['/']
  | .power => ['*', '*']

def kinds : FrequencyFault → List ErrorKind
  | notQuantity _ => [.type]
  | emptyText => [.value]
  | formula .incomplete => [.assertion]
  | formula .unbalanced => [.token]
  | formula .unopened | formula (.lonelySign _) => [.definitionSyntax, .value, .quantity]
  | formula (.calculation (.number f)) => [f.kind]
  | formula (.calculation (.mismatch _ _ _)) => [.dimensionality, .quantity, .type]
  | formula (.calculation (.undefinedUnit _)) => [.undefinedUnit, .attribute, .quantity]

def message : FrequencyFault → List Char
  | notQuantity shown => "Invalid magnitude for Quantity: ".toList ++ shown
  | emptyText => "Expression to parse as PlainQuantity cannot be an empty string.".toList
  | formula .incomplete => []
  | formula .unbalanced => []
  | formula .unopened => "unopened parentheses in tokens".toList
  | formula (.lonelySign s) => "missing unary operator '".toList ++ signText s ++ ['\x27']
  | formula (.calculation f) => f.message

def raised (f : FrequencyFault) : Raised := ⟨f.kinds, f.message⟩

end FrequencyFault

namespace Frequency

def calculated {α : Type} (r : Calculated α) : Except Raised α :=
  r.mapError fun f => (FrequencyFault.formula (.calculation f)).raised

def ofText (s : List Char) : Except FrequencyFault Term := do
  if s.isEmpty then throw .emptyText
  let f ← (Formula.parse s).mapError .formula
  f.value.mapError .formula

def quantity : Value → Except Raised (Magnitude Char × Units)
  | .text s => do
    match ← (ofText s).mapError FrequencyFault.raised with
    | .plain a => return (.amount a, [])
    | .measured q => return (.amount q.amount, q.units)
  | v => do throw (FrequencyFault.notQuantity (← v.shown)).raised

def inHertz : Magnitude Char × Units → Except Raised (Magnitude Char)
  | (.amount a, us) => do return .amount (← calculated (Quantity.convert ⟨a, us⟩ Units.hertz))
  | (.other real, _) => .ok (.other real)

end Frequency

def Registry.standard : Registry Char where
  Units := Immittance.Units
  quantity := Frequency.quantity
  isDimensionless q := Frequency.calculated (Units.isDimensionless q.2)
  inHertz := Frequency.inHertz

namespace Frequency

def toHertz : Value → Except Raised Float := Registry.standard.toHertz

end Frequency

end Immittance
