import Mathlib
import Immittance.Proofs.Session.Batch

/-!
# The journal of a history

The records of the evaluator tell the history of a model: one record for each entry, one for each
clearing with the number of entries before it, and no others. Replayed they give the size of the
history after every action. A threshold leaves some of them out and changes nothing else.
-/

set_option autoImplicit false

namespace Immittance

namespace Journal

def ofLogger (l : Logger) (rs : List Record) : List Record := rs.filter (·.logger = l)

def clearing (n : ℕ) : Record :=
  ⟨Level.info, .evaluator,
    if n = 1 then "Cleared 1 history entry.".toList
    else "Cleared ".toList ++ (toString n).toList ++ " history entries.".toList⟩

def count (n : ℕ) (r : Record) : ℕ :=
  if "Evaluated ".toList.isPrefixOf r.message then n + 1
  else if "Cleared ".toList.isPrefixOf r.message then 0
  else n

theorem ofLogger_append (l : Logger) (xs ys : List Record) :
    ofLogger l (xs ++ ys) = ofLogger l xs ++ ofLogger l ys :=
  List.filter_append xs ys

theorem ofLogger_eq_nil {l : Logger} {rs : List Record} (h : ∀ r ∈ rs, r.logger ≠ l) :
    ofLogger l rs = [] := by
  rw [ofLogger, List.filter_eq_nil_iff]
  intro r hr
  simpa using h r hr

end Journal

/-! ## Who writes what -/

namespace Expression

/-- What is noted while an expression is read is not noted by the evaluator. -/
theorem logger_of_mem_notes {s : List Char} {r : Record} (hr : r ∈ notes s) :
    r.logger = .tokens ∨ r.logger = .expression := by
  rw [notes] at hr
  fun_induction journal s with
  | case1 s e h => cases hr
  | case2 s t h p ht =>
    obtain rfl := List.mem_singleton.mp hr
    exact Or.inl rfl
  | case3 s t h e ht => cases hr
  | case4 s w members h inner heard complete ih =>
    rcases List.mem_append.mp hr with hm | hg
    · have hheard : heard ⊆ inner := List.append_subset.mpr
        ⟨List.takeWhile_subset _,
          List.Subset.trans (List.take_subset _ _) (List.dropWhile_subset _)⟩
      obtain ⟨x, hx, hr⟩ := List.mem_flatMap.mp hm
      obtain ⟨m, _, rfl⟩ := List.mem_map.mp (hheard hx)
      exact ih m hr
    · split at hg
      · obtain rfl := List.mem_singleton.mp hg
        exact Or.inr rfl
      · cases hg

theorem ofLogger_notes (s : List Char) : Journal.ofLogger .evaluator (notes s) = [] := by
  apply Journal.ofLogger_eq_nil
  intro r hr
  rcases logger_of_mem_notes hr with h | h <;> rw [h] <;> decide

end Expression

theorem Target.ofLogger_notes (target : Target) :
    Journal.ofLogger .evaluator target.notes = [] := by
  cases target with
  | expression s =>
    cases s with
    | none => rfl
    | some s => exact Expression.ofLogger_notes s
  | offer o => rfl
  | kept name => rfl

theorem CalculationFile.ofLogger_notes (file : CalculationFile) :
    Journal.ofLogger .evaluator file.notes = [] := by
  rw [notes]
  split <;> rfl

theorem Request.ofLogger_notes (r : Request) :
    Journal.ofLogger .evaluator r.notes = r.entry.toOption.toList.map Entry.note := by
  rw [notes, Journal.ofLogger_append, Expression.ofLogger_notes]
  cases r.entry <;> rfl

namespace History

open Request

end History

/-! ## What an action writes -/

def Action.reads : Action → Bool
  | .evaluate _ _ | .clear | .run _ | .runFile _ => false
  | _ => true

/-- What an action on a history may come to: its answer, the history after it and what the evaluator
writes. An entry is written when it joins the history, and not otherwise. -/
inductive Writes (h : History) : Action → Except Failure Answer → History → List Record → Prop
  | evaluated {target : Target} (x : Entry) :
      Writes h (.evaluate target x.frequency) (.ok (.phasor x.result)) (h ++ [x]) [x.note]
  | failed {target : Target} {f : Float} (e : Failure) :
      Writes h (.evaluate target f) (.error e) h []
  | cleared : Writes h .clear (.ok .nothing) [] [Journal.clearing h.length]
  | completed {rs : List Request} {made : History} (makes : List.Forall₂ Request.Makes rs made) :
      Writes h (.run rs) (.ok (.calculations (History.named rs made))) (h ++ made)
        (made.map Entry.note)
  | stopped {before after : List Request} {r : Request} {made : History} {e : Failure}
      (makes : List.Forall₂ Request.Makes before made) (fails : r.Fails e) :
      Writes h (.run (before ++ r :: after)) (.error e) (h ++ made) (made.map Entry.note)
  | loaded {file : CalculationFile} {rs : List Request} {answer : Except Failure Answer}
      {h' : History} {written : List Record} (load : file.load = .ok rs)
      (run : Writes h (.run rs) answer h' written) : Writes h (.runFile file) answer h' written
  | notLoaded {file : CalculationFile} {e : FileError} (load : file.load = .error e) :
      Writes h (.runFile file) (.error (.file e)) h []
  | read {a : Action} (answer : Except Failure Answer) (reads : a.reads) : Writes h a answer h []

namespace Session

open Request

end Session

/-! ## What a run writes -/

namespace Event

/-- What the evaluator writes of events in the history of `model` that begin `n` entries after it was
last cleared: one record for each entry, and one for each clearing with the number of entries since
the one before. -/
def records (model : List Char) : ℕ → List Event → List Record
  | _, [] => []
  | n, e :: es =>
    if e.clears model then Journal.clearing n :: records model 0 es
    else
      match e.gain? model with
      | some x => x.note :: records model (n + 1) es
      | none => records model n es

end Event

namespace Session

def stepAt (threshold : Int) (s : Session) (model : List Char) (a : Action) : Outcome :=
  let o := s.step model a
  { o with notes := Journal.shown threshold o.notes }

def stepsAt (threshold : Int) (s : Session) : List (List Char × Action) → List Outcome
  | [] => []
  | (model, a) :: rest =>
    let o := s.stepAt threshold model a
    o :: stepsAt threshold o.session rest

def log (threshold : Int) (s : Session) (acts : List (List Char × Action)) : List Record :=
  Journal.ofLogger .evaluator ((s.stepsAt threshold acts).flatMap (·.notes))

end Session

end Immittance
