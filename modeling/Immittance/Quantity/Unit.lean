import Immittance.Quantity.Amount

/-!
# Units

A unit has a name, the dimension it measures and the factors that lead from it to the base units. It
may carry one prefix, a power of ten. The name of a unit is looked for as it is written, with a
prefix in front, and with the plural's letter at the end.

A product of units keeps its units in the order in which they first appeared.
-/

set_option autoImplicit false

namespace Immittance

inductive Dimension where
  | mass
  | length
  | time
  | current
deriving DecidableEq, Repr

def Dimension.text : Dimension → List Char
  | mass => "[mass]".toList
  | length => "[length]".toList
  | time => "[time]".toList
  | current => "[current]".toList

inductive BaseUnit where
  | hertz
  | second
  | minute
  | meter
  | ohm
  | volt
  | ampere
  | farad
  | henry
  | radian
  | revolutionPerMinute
  | rads
  | percent
deriving DecidableEq, Repr

namespace BaseUnit

def all : List BaseUnit :=
  [hertz, second, minute, meter, ohm, volt, ampere, farad, henry, radian, revolutionPerMinute,
   rads, percent]

def name : BaseUnit → String
  | hertz => "hertz"
  | second => "second"
  | minute => "minute"
  | meter => "meter"
  | ohm => "ohm"
  | volt => "volt"
  | ampere => "ampere"
  | farad => "farad"
  | henry => "henry"
  | radian => "radian"
  | revolutionPerMinute => "revolution_per_minute"
  | rads => "rads"
  | percent => "percent"

def spellings : BaseUnit → List String
  | hertz => ["hertz", "Hz"]
  | second => ["second", "s", "sec"]
  | minute => ["minute", "min"]
  | meter => ["meter", "m", "metre"]
  | ohm => ["ohm", "Ω"]
  | volt => ["volt", "V"]
  | ampere => ["ampere", "A", "amp"]
  | farad => ["farad", "F"]
  | henry => ["henry", "H"]
  | radian => ["radian", "rad"]
  | revolutionPerMinute => ["revolution_per_minute", "rpm"]
  | rads => ["rads"]
  | percent => ["percent"]

def ofWord? (word : List Char) : Option BaseUnit :=
  all.find? fun u => u.spellings.any fun s => s.toList == word

def dimensions : BaseUnit → List (Dimension × Int)
  | hertz => [(.time, -1)]
  | second | minute => [(.time, 1)]
  | meter => [(.length, 1)]
  | ohm => [(.mass, 1), (.length, 2), (.time, -3), (.current, -2)]
  | volt => [(.mass, 1), (.length, 2), (.time, -3), (.current, -1)]
  | ampere => [(.current, 1)]
  | farad => [(.current, 2), (.time, 4), (.mass, -1), (.length, -2)]
  | henry => [(.mass, 1), (.length, 2), (.time, -2), (.current, -2)]
  | radian | percent => []
  | revolutionPerMinute => [(.time, -1)]
  | rads => [(.length, 2), (.time, -2)]

/-- The factors of a unit with their exponents. The base unit of mass is a thousandth of the one
that the electrical units are made of. -/
def factors : BaseUnit → List (Float × Int)
  | minute => [(60, 1)]
  | ohm | volt | henry => [(1000, 1)]
  | farad => [(1000, -1)]
  | revolutionPerMinute => [(6.283185307179586, 1), (60, -1)]
  | rads | percent => [(0.01, 1)]
  | hertz | second | meter | ampere | radian => []

end BaseUnit

structure Prefix where
  name : String
  power : Int
  spellings : List String
deriving DecidableEq, Repr

def Prefix.all : List Prefix :=
  [⟨"quecto", -30, ["quecto", "q"]⟩, ⟨"ronto", -27, ["ronto", "r"]⟩,
   ⟨"yocto", -24, ["yocto", "y"]⟩, ⟨"zepto", -21, ["zepto", "z"]⟩, ⟨"atto", -18, ["atto", "a"]⟩,
   ⟨"femto", -15, ["femto", "f"]⟩, ⟨"pico", -12, ["pico", "p"]⟩, ⟨"nano", -9, ["nano", "n"]⟩,
   ⟨"micro", -6, ["micro", "µ", "μ", "u"]⟩, ⟨"milli", -3, ["milli", "m"]⟩,
   ⟨"centi", -2, ["centi", "c"]⟩, ⟨"deci", -1, ["deci", "d"]⟩,
   ⟨"deca", 1, ["deca", "da", "deka"]⟩, ⟨"hecto", 2, ["hecto", "h"]⟩,
   ⟨"kilo", 3, ["kilo", "k"]⟩, ⟨"mega", 6, ["mega", "M"]⟩, ⟨"giga", 9, ["giga", "G"]⟩,
   ⟨"tera", 12, ["tera", "T"]⟩, ⟨"peta", 15, ["peta", "P"]⟩, ⟨"exa", 18, ["exa", "E"]⟩,
   ⟨"zetta", 21, ["zetta", "Z"]⟩, ⟨"yotta", 24, ["yotta", "Y"]⟩,
   ⟨"ronna", 27, ["ronna", "R"]⟩, ⟨"quetta", 30, ["quetta", "Q"]⟩]

structure PrefixedUnit where
  scale : Option Prefix
  base : BaseUnit
deriving DecidableEq, Repr

namespace PrefixedUnit

def name (u : PrefixedUnit) : List Char :=
  match u.scale with
  | none => u.base.name.toList
  | some p => p.name.toList ++ u.base.name.toList

def baseOf? (plural : Bool) (word : List Char) : Option BaseUnit :=
  if plural && word.length == 1 then none else BaseUnit.ofWord? word

def bare? (plural : Bool) (word : List Char) : Option PrefixedUnit :=
  match baseOf? plural word with
  | some b => some ⟨none, b⟩
  | none =>
    Prefix.all.findSome? fun p => p.spellings.findSome? fun s =>
      if s.toList.isPrefixOf word then
        (baseOf? plural (word.drop s.length)).map fun b => ⟨some p, b⟩
      else none

def singular? (word : List Char) : Option (List Char) :=
  match word.reverse with
  | 's' :: rest => some rest.reverse
  | _ => none

def ofWord? (word : List Char) : Option PrefixedUnit :=
  bare? false word <|> (singular? word).bind (bare? true)

def factors (u : PrefixedUnit) : List (Float × Int) :=
  match u.scale with
  | none => u.base.factors
  | some p => (Decimal.nearest 1 p.power, 1) :: u.base.factors

end PrefixedUnit

abbrev Powers (α : Type) := List (α × Amount)

namespace Powers

section
variable {α : Type} [DecidableEq α]

def raise (a : α) (e : Amount) : Powers α → Except NumberFault (Powers α)
  | [] => .ok [(a, e)]
  | (b, f) :: ps =>
    if b = a then do return (b, ← f.add e) :: ps
    else do return (b, f) :: (← raise a e ps)

def nonZero (ps : Powers α) : Powers α := ps.filter fun p => !p.2.isZero

def mul (ps qs : Powers α) : Except NumberFault (Powers α) :=
  qs.foldlM (fun acc q => do return nonZero (← raise q.1 q.2 acc)) ps

def pow (ps : Powers α) (e : Amount) : Except NumberFault (Powers α) :=
  ps.mapM fun p => do return (p.1, ← p.2.mul e)

def inverse (ps : Powers α) : Except NumberFault (Powers α) := pow ps (.whole (-1))

def div (ps qs : Powers α) : Except NumberFault (Powers α) := do mul ps (← inverse qs)

def same (ps qs : Powers α) : Bool :=
  ps.length == qs.length &&
    ps.all fun p => qs.any fun q => p.1 == q.1 && p.2.same q.2

def factorText (name : List Char) (e : Amount) : List Char :=
  if e.isOne then name else name ++ " ** ".toList ++ e.text

def text (name : α → List Char) (ps : Powers α) : List Char :=
  let up := ps.filter fun p => p.2.isPositive
  let down := ps.filter fun p => !p.2.isPositive
  let product := " * ".toList.intercalate (up.map fun p => factorText (name p.1) p.2)
  (if up.isEmpty then ['1'] else product) ++
    down.flatMap fun p => " / ".toList ++ factorText (name p.1) p.2.abs

end

end Powers

abbrev Units := Powers PrefixedUnit

namespace Units

def dimension (us : Units) : Except NumberFault (Powers Dimension) := do
  let all ← us.foldlM (fun acc u =>
    u.1.base.dimensions.foldlM (fun acc d => do
      Powers.raise d.1 (← u.2.mul (.whole d.2)) acc) acc) []
  return Powers.nonZero all

def factor (us : Units) : Except NumberFault Float :=
  us.foldlM (fun acc u =>
    u.1.factors.foldlM (fun acc f => do
      let e ← (← u.2.mul (.whole f.2)).toReal
      return acc * (← Amount.powReal f.1 e)) acc) 1

def text (us : Units) : List Char :=
  if us.isEmpty then "dimensionless".toList else Powers.text PrefixedUnit.name us

def hertz : Units := [(⟨none, .hertz⟩, .whole 1)]

end Units

end Immittance
