import Immittance.Decimal.Numeral
import Immittance.Quantity.Unit

/-!
# Quantities

A quantity is an amount of a product of units. Products, quotients and powers act on amount and units
alike; a sum takes its unit from the left and needs the same dimension on the right. A plain amount
meets a quantity in a product freely, in a sum only if the quantity has no dimension or the amount is
zero or no number.
-/

set_option autoImplicit false

namespace Immittance

structure Quantity where
  amount : Amount
  units : Units

inductive QuantityFault where
  | number (fault : NumberFault)
  | mismatch (left right : List Char) (dimensions : Option (List Char × List Char))
  | undefinedUnit (name : List Char)
deriving DecidableEq, Repr

namespace QuantityFault

def message : QuantityFault → List Char
  | number f => f.message.toList
  | mismatch l r none =>
    "Cannot convert from '".toList ++ l ++ "' to '".toList ++ r ++ ['\x27']
  | mismatch l r (some (dl, dr)) =>
    "Cannot convert from '".toList ++ l ++ "' (".toList ++ dl ++ ") to '".toList ++ r ++
      "' (".toList ++ dr ++ [')']
  | undefinedUnit name =>
    '\x27' :: name ++ "' is not defined in the unit registry".toList

end QuantityFault

abbrev Calculated (α : Type) := Except QuantityFault α

def numeric {α : Type} (r : Except NumberFault α) : Calculated α :=
  r.mapError .number

def Units.isDimensionless (us : Units) : Calculated Bool := do
  return (← numeric us.dimension).isEmpty

namespace Quantity

def dimensionText (ds : Powers Dimension) : List Char :=
  if ds.isEmpty then "dimensionless".toList else Powers.text Dimension.text ds

def unlike (l r : Units) (dl dr : Powers Dimension) : QuantityFault :=
  .mismatch l.text r.text (some (dimensionText dl, dimensionText dr))

def convert (q : Quantity) (target : Units) : Calculated Amount := do
  if Powers.same q.units target then return q.amount
  let dl ← numeric q.units.dimension
  let dr ← numeric (Units.dimension target)
  if Powers.same dl dr then
    let f ← numeric (Units.factor (← numeric (Powers.div q.units target)))
    numeric (q.amount.mul (.real f))
  else throw (unlike q.units target dl dr)

def isDimensionless (q : Quantity) : Calculated Bool := q.units.isDimensionless

end Quantity

inductive Term where
  | plain (a : Amount)
  | measured (q : Quantity)

namespace Term

def mul : Term → Term → Calculated Term
  | plain a, plain b => do return plain (← numeric (a.mul b))
  | plain a, measured q | measured q, plain a => do
    return measured ⟨← numeric (q.amount.mul a), q.units⟩
  | measured p, measured q => do
    return measured ⟨← numeric (p.amount.mul q.amount), ← numeric (Powers.mul p.units q.units)⟩

def div : Term → Term → Calculated Term
  | plain a, plain b => do return plain (← numeric (a.div b))
  | measured q, plain a => do return measured ⟨← numeric (q.amount.divReal a), q.units⟩
  | plain a, measured q => do
    return measured ⟨← numeric (a.div q.amount), ← numeric (Powers.inverse q.units)⟩
  | measured p, measured q => do
    return measured ⟨← numeric (p.amount.divReal q.amount), ← numeric (Powers.div p.units q.units)⟩

def sumPlain (op : Amount → Amount → Except NumberFault Amount) (q : Quantity) (a : Amount) :
    Calculated Quantity := do
  if a.isZero || a.isNaN then return ⟨← numeric (op q.amount a), q.units⟩
  else if ← q.isDimensionless then
    return ⟨← numeric (op (← q.convert []) a), []⟩
  else throw (.mismatch q.units.text "dimensionless".toList none)

def sumMeasured (op : Amount → Amount → Except NumberFault Amount) (p q : Quantity) :
    Calculated Quantity := do
  let dp ← numeric p.units.dimension
  let dq ← numeric q.units.dimension
  if Powers.same dp dq then return ⟨← numeric (op p.amount (← q.convert p.units)), p.units⟩
  else throw (Quantity.unlike p.units q.units dp dq)

def negated (q : Quantity) : Calculated Quantity := do
  return ⟨← numeric (q.amount.mul (.whole (-1))), q.units⟩

def add : Term → Term → Calculated Term
  | plain a, plain b => do return plain (← numeric (a.add b))
  | plain a, measured q | measured q, plain a => do return measured (← sumPlain Amount.add q a)
  | measured p, measured q => do return measured (← sumMeasured Amount.add p q)

def sub : Term → Term → Calculated Term
  | plain a, plain b => do return plain (← numeric (a.sub b))
  | measured q, plain a => do return measured (← sumPlain Amount.sub q a)
  | plain a, measured q => do return measured (← negated (← sumPlain Amount.sub q a))
  | measured p, measured q => do return measured (← sumMeasured Amount.sub p q)

def neg (t : Term) : Calculated Term := mul t (plain (.whole (-1)))

def powPlain (q : Quantity) (e : Amount) : Calculated Quantity := do
  if e.isOne then return q
  else if e.isZero then return ⟨← numeric (q.amount.pow (.whole 0)), []⟩
  else return ⟨← numeric (q.amount.pow e), ← numeric (Powers.pow q.units e)⟩

def pure? (q : Quantity) : Calculated Amount := do
  if ← q.isDimensionless then numeric (q.amount.mul (.real (← numeric q.units.factor)))
  else throw (.mismatch q.units.text "dimensionless".toList none)

def pow : Term → Term → Calculated Term
  | plain a, plain b => do return plain (← numeric (a.pow b))
  | measured q, plain e => do return measured (← powPlain q e)
  | plain a, measured e => do return plain (← numeric (a.pow (← pure? e)))
  | measured q, measured e => do return measured (← powPlain q (← pure? e))

def ofName (name : List Char) : Calculated Term :=
  match Decimal.nonFinite? name with
  | some x => .ok (plain (.real x))
  | none =>
    if name = "dimensionless".toList then .ok (measured ⟨.whole 1, []⟩)
    else
      match PrefixedUnit.ofWord? name with
      | some u => .ok (measured ⟨.whole 1, [(u, .whole 1)]⟩)
      | none => .error (.undefinedUnit name)

end Term

end Immittance
