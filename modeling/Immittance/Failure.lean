import Immittance.Calculation.File
import Immittance.Expression.Parse
import Immittance.Offer

/-!
# Failures

Everything that can go wrong on the way from an expression to a result. An expression that cannot be
read, a circuit without impedance and a file that gives no calculations can each be explained in a
report.
-/

set_option autoImplicit false

namespace Immittance

inductive Failure (α : Type := Char) where
  | misuse (m : Misuse)
  | expression (e : ParseError)
  | circuit (f : Fault Float)
  | file (e : FileError α)
  | noEntry
  | notKept (name : List Char)
  | unknownLevel (name : List Char)

namespace ParseError

def report (e : ParseError) : Report :=
  ⟨"Expression Parse Error (".toList ++ e.issue.code.toList ++ [')'], e.details,
   ("Components are written KIND:VALUE with KIND one of R, C, L " ++
    "(or resistor, capacitor, inductor), e.g. 'R:100' or 'C:1e-6'.\n" ++
    "Groups are written series(...) or parallel(...) with comma-separated members.").toList,
   [], [], e.input, none⟩

end ParseError

namespace Fault

def report (f : Fault Float) : Report :=
  let (kind, suggestion) :=
    if f.cause.isArithmetic then
      ("Impedance Computation Error",
       "A parallel branch has zero impedance, or the branch admittances cancel exactly. Check for " ++
       "zero-valued resistors or resonant LC pairs in parallel groups.")
    else
      ("Invalid Circuit",
       "Use a frequency greater than zero for circuits containing capacitors or inductors, and " ++
       "give every series/parallel group at least one element.")
  ⟨kind.toList, f.cause.message.toList, suggestion.toList, f.place.describe, [], [],
   some f.frequency⟩

end Fault

namespace Failure

open Letter

variable {α : Type} [Letter α]

def message : Failure α → Except (Raised α) (List α)
  | misuse m => .ok (word m.message)
  | expression e => .ok (spell e.details)
  | circuit f => .ok (word f.cause.message)
  | file e => e.message
  | noEntry => .ok (word "tuple index out of range")
  | notKept name => .ok (spell (Text.quoted name))
  | unknownLevel name => .ok (word "Unknown logging level: " ++ spell name)

def report? : Failure α → Option (Except (Raised α) (Report α))
  | expression e => some (.ok e.report.spelled)
  | circuit f => some (.ok f.report.spelled)
  | file e => e.report?
  | _ => none

end Failure

namespace Expression

def parseGiven : Option (List Char) → Except Failure (Circuit Float)
  | none => .error (.misuse .noExpression)
  | some s => (parse s).mapError .expression

end Expression

namespace Offer

def impedance (f : Float) (o : Offer) : Except Failure (Phasor Float) := do
  let c ← o.circuit?.mapError .misuse
  (c.impedance f).mapError .circuit

end Offer

def Level.ofName (name : List Char) : Except Failure Int :=
  match Level.ofName? name with
  | some level => .ok level
  | none => .error (.unknownLevel name)

end Immittance
