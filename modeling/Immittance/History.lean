import Immittance.Failure

/-!
# Histories

A history holds what was evaluated successfully, in order: the circuit, the frequency and the result
of each evaluation. A batch of requests is evaluated one by one up to the first that fails; what came
before it stays in the history.
-/

set_option autoImplicit false

namespace Immittance

structure Entry where
  circuit : Circuit Float
  frequency : Float
  result : Phasor Float

abbrev History := List Entry

structure Calculation where
  name : List Char
  expression : List Char
  frequency : Float
  result : List Char
  parts : List (Part Float)

namespace Entry

def evaluate (o : Offer) (f : Float) : Except Failure Entry :=
  match o with
  | .value .null => .error (.misuse .noCircuit)
  | o => do
    let c ← o.circuit?.mapError .misuse
    return ⟨c, f, ← o.impedance f⟩

def named (name : List Char) (e : Entry) : Calculation :=
  ⟨name, e.circuit.describe, e.frequency, e.result.text, e.circuit.parts⟩

def note (e : Entry) : Record :=
  ⟨Level.debug, .evaluator, "Evaluated ".toList ++ e.circuit.describe ++ " at ".toList ++
    shortestText e.frequency ++ " Hz -> ".toList ++ e.result.text⟩

end Entry

namespace Calculation

def note (c : Calculation) : Record :=
  ⟨Level.info, .loader, "Calculation '".toList ++ c.name ++ "': Z = ".toList ++ c.result ++
    " ohm at ".toList ++ shortestText c.frequency ++ " Hz".toList⟩

end Calculation

namespace Request

def entry (r : Request) : Except Failure Entry := do
  Entry.evaluate (.circuit (← Expression.parseGiven (some r.expression))) r.frequency

def notes (r : Request) : List Record :=
  Expression.notes r.expression ++
    match r.entry with
    | .ok e => [e.note, (e.named r.name).note]
    | .error _ => []

end Request

namespace History

def begun : Record := ⟨Level.debug, .evaluator, "ImpedanceModel instance created.".toList⟩

def cleared (h : History) : Record :=
  ⟨Level.info, .evaluator, "Cleared ".toList ++ (toString h.length).toList ++ " history entr".toList ++
    (if h.length = 1 then ['y'] else ['i', 'e', 's']) ++ ['.']⟩

def run (h : History) : List Request → History × Except Failure (List Calculation)
  | [] => (h, .ok [])
  | r :: rs =>
    match r.entry with
    | .error e => (h, .error e)
    | .ok e =>
      let (h, rest) := run (h ++ [e]) rs
      (h, rest.map (e.named r.name :: ·))

def runNotes : List Request → List Record
  | [] => []
  | r :: rs =>
    r.notes ++
      match r.entry with
      | .error _ => []
      | .ok _ => runNotes rs

def entryAt (h : History) (place : Int) : Except Failure Entry :=
  let place := if place < 0 then place + h.length else place
  if place < 0 then .error .noEntry
  else
    match h[place.toNat]? with
    | some e => .ok e
    | none => .error .noEntry

end History

/-! ## Views -/

inductive View where
  | entries
  | elements
  | frequencies
  | results
deriving DecidableEq, Repr

inductive Snapshot where
  | entries (es : List Entry)
  | elements (cs : List (Circuit Float))
  | frequencies (fs : List Float)
  | results (zs : List (Phasor Float))

namespace Snapshot

def take (v : View) (h : History) : Snapshot :=
  match v with
  | .entries => entries h
  | .elements => elements (h.map (·.circuit))
  | .frequencies => frequencies (h.map (·.frequency))
  | .results => results (h.map (·.result))

def size : Snapshot → Nat
  | entries es => es.length
  | elements cs => cs.length
  | frequencies fs => fs.length
  | results zs => zs.length

end Snapshot

end Immittance
