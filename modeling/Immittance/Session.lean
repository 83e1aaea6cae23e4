import Immittance.History

/-!
# Sessions

A session holds histories by name, and circuits and snapshots that were kept under names of their
own. A step is taken in one history, which begins when it is first named. It answers with a value or
a failure, and leaves notes in the journal.
-/

set_option autoImplicit false

namespace Immittance

abbrev Kept (α : Type) := List (List Char × α)

structure Session where
  histories : Kept History
  circuits : Kept (Circuit Float)
  snapshots : Kept Snapshot

inductive Target where
  | expression (s : Option (List Char))
  | offer (o : Except Misuse Offer)
  | kept (name : List Char)

inductive Action where
  | parse (name : List Char) (s : Option (List Char))
  | evaluate (target : Target) (f : Float)
  | clear
  | size
  | view (v : View)
  | snapshot (name : List Char) (v : View)
  | recall (name : List Char)
  | name (name : List Char) (place : Int)
  | run (requests : List Request)
  | runFile (file : CalculationFile)

inductive Answer where
  | nothing
  | count (n : Nat)
  | text (s : List Char)
  | phasor (z : Phasor Float)
  | snapshot (s : Snapshot)
  | calculation (c : Calculation)
  | calculations (cs : List Calculation)

structure Outcome where
  session : Session
  answer : Except Failure Answer
  notes : List Record

namespace Target

def offer? (s : Session) : Target → Except Failure Offer
  | expression e => do return .circuit (← Expression.parseGiven e)
  | offer o => o.mapError .misuse
  | kept name =>
    match s.circuits.lookup name with
    | some c => .ok (.circuit c)
    | none => .error (.notKept name)

def notes : Target → List Record
  | expression (some s) => Expression.notes s
  | _ => []

end Target

namespace Session

def empty : Session := ⟨[], [], []⟩

def history (s : Session) (model : List Char) : History := (s.histories.lookup model).getD []

def withHistory (s : Session) (model : List Char) (h : History) : Session :=
  { s with histories := (model, h) :: s.histories.filter (·.1 != model) }

def evaluate (s : Session) (model : List Char) (target : Target) (f : Float) : Outcome :=
  match target.offer? s with
  | .error e => ⟨s, .error e, target.notes⟩
  | .ok o =>
    match Entry.evaluate o f with
    | .error e => ⟨s, .error e, target.notes⟩
    | .ok e =>
      ⟨s.withHistory model (s.history model ++ [e]), .ok (.phasor e.result), target.notes ++ [e.note]⟩

def run (s : Session) (model : List Char) (requests : List Request) : Outcome :=
  let (h, answer) := (s.history model).run requests
  ⟨s.withHistory model h, answer.map .calculations, History.runNotes requests⟩

def act (s : Session) (model : List Char) : Action → Outcome
  | .parse name e =>
    match Expression.parseGiven e with
    | .error f => ⟨s, .error f, (Target.expression e).notes⟩
    | .ok c =>
      ⟨{ s with circuits := (name, c) :: s.circuits }, .ok (.text c.describe),
       (Target.expression e).notes⟩
  | .evaluate target f => s.evaluate model target f
  | .clear => ⟨s.withHistory model [], .ok .nothing, [(s.history model).cleared]⟩
  | .size => ⟨s, .ok (.count (s.history model).length), []⟩
  | .view v => ⟨s, .ok (.snapshot (.take v (s.history model))), []⟩
  | .snapshot name v =>
    let shot := Snapshot.take v (s.history model)
    ⟨{ s with snapshots := (name, shot) :: s.snapshots }, .ok (.count shot.size), []⟩
  | .recall name =>
    match s.snapshots.lookup name with
    | some shot => ⟨s, .ok (.snapshot shot), []⟩
    | none => ⟨s, .error (.notKept name), []⟩
  | .name name place =>
    ⟨s, (History.entryAt (s.history model) place).map fun e => .calculation (e.named name), []⟩
  | .run requests => s.run model requests
  | .runFile file =>
    match file.load with
    | .error e => ⟨s, .error (.file e), file.notes⟩
    | .ok requests =>
      let o := s.run model requests
      { o with notes := file.notes ++ o.notes }

def begin (s : Session) (model : List Char) : Session × List Record :=
  match s.histories.lookup model with
  | some _ => (s, [])
  | none => (s.withHistory model [], [History.begun])

def step (s : Session) (model : List Char) (a : Action) : Outcome :=
  let (s, notes) := s.begin model
  let o := s.act model a
  { o with notes := notes ++ o.notes }

def steps (s : Session) : List (List Char × Action) → List Outcome
  | [] => []
  | (model, a) :: rest =>
    let o := s.step model a
    o :: steps o.session rest

end Session

end Immittance
