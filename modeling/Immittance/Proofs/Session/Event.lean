import Mathlib
import Immittance.Session

/-!
# Events of a session

What a session does to histories is told by its events: a call for an evaluation, which succeeds or
does not, and the clearing of a history. The history that events leave behind is what succeeded since
the last clearing.
-/

set_option autoImplicit false

namespace Immittance

structure Call where
  model : List Char
  offer : Offer
  frequency : Float

inductive Event where
  | call (c : Call)
  | clear (model : List Char)

def Call.gain? (c : Call) : Option Entry :=
  match c.offer with
  | .value _ => none
  | .circuit t =>
    match t.impedance c.frequency with
    | .ok z => some ⟨t, c.frequency, z⟩
    | .error _ => none

namespace Event

def clears (model : List Char) : Event → Bool
  | call _ => false
  | clear m => m == model

def gain? (model : List Char) : Event → Option Entry
  | call c => if c.model = model then c.gain? else none
  | clear _ => none

def since (model : List Char) (es : List Event) : History :=
  (es.rtakeWhile fun e => !e.clears model).filterMap (gain? model)

def apply (model : List Char) (h : History) (e : Event) : History :=
  if e.clears model then [] else h ++ (e.gain? model).toList

theorem since_concat (model : List Char) (es : List Event) (e : Event) :
    since model (es ++ [e]) = apply model (since model es) e := by
  rw [since, List.rtakeWhile_concat, apply]
  cases h : e.clears model with
  | true => rfl
  | false =>
    simp only [Bool.not_false, if_true, List.filterMap_append, Bool.false_eq_true, if_false, since]
    congr 1

theorem foldl_apply (model : List Char) (es : List Event) :
    es.foldl (apply model) [] = since model es := by
  induction es using List.reverseRecOn with
  | nil => rfl
  | append_singleton es e ih => rw [List.foldl_concat, ih, since_concat]

theorem apply_of_clear (model : List Char) (h : History) : apply model h (clear model) = [] := by
  simp [apply, clears]

theorem apply_of_ne {model : List Char} {e : Event} (h : History) (hc : e.clears model = false)
    (he : e.gain? model = none) : apply model h e = h := by
  simp [apply, hc, he]

theorem foldl_apply_of_ne {model : List Char} {es : List Event} (h : History)
    (hes : ∀ e ∈ es, e.clears model = false ∧ e.gain? model = none) :
    es.foldl (apply model) h = h := by
  induction es with
  | nil => rfl
  | cons e es ih =>
    rw [List.foldl_cons, apply_of_ne h (hes e (by simp)).1 (hes e (by simp)).2]
    exact ih fun d hd => hes d (List.mem_cons_of_mem _ hd)

theorem mem_since {model : List Char} {es : List Event} {x : Entry} (h : x ∈ since model es) :
    ∃ c : Call, call c ∈ es ∧ c.model = model ∧ c.gain? = some x := by
  obtain ⟨e, he, hx⟩ := List.mem_filterMap.mp h
  have hmem := (List.rtakeWhile_suffix _ es).subset he
  cases e with
  | clear m => simp [gain?] at hx
  | call c =>
    by_cases hm : c.model = model
    · exact ⟨c, hmem, hm, by simpa [gain?, hm] using hx⟩
    · simp [gain?, hm] at hx

end Event

namespace Call

theorem gain?_eq_some_iff {c : Call} {x : Entry} :
    c.gain? = some x ↔
      c.offer = .circuit x.circuit ∧ c.frequency = x.frequency ∧
        x.circuit.impedance x.frequency = .ok x.result := by
  obtain ⟨m, o, f⟩ := c
  cases o with
  | value v => simp [gain?]
  | circuit t =>
    obtain ⟨t', f', z'⟩ := x
    cases h : t.impedance f with
    | error e =>
      simp only [gain?, h, reduceCtorEq, false_iff]
      rintro ⟨ht, rfl, hz⟩
      obtain rfl := Offer.circuit.inj ht
      rw [h] at hz
      simp at hz
    | ok z =>
      simp only [gain?, h, Option.some.injEq, Entry.mk.injEq, Offer.circuit.injEq]
      constructor
      · rintro ⟨rfl, rfl, rfl⟩
        exact ⟨rfl, rfl, h⟩
      · rintro ⟨rfl, rfl, hz⟩
        rw [h] at hz
        exact ⟨rfl, rfl, Except.ok.inj hz⟩

theorem gain?_eq (model : List Char) (o : Offer) (f : Float) :
    gain? ⟨model, o, f⟩ = (Entry.evaluate o f).toOption := by
  cases o with
  | value v => cases v <;> rfl
  | circuit t =>
    have hz : (Offer.circuit t).impedance f = (t.impedance f).mapError .circuit := rfl
    have he : Entry.evaluate (.circuit t) f = (do return ⟨t, f, ← (Offer.circuit t).impedance f⟩) :=
      rfl
    rw [he, hz]
    cases h : t.impedance f with
    | error e =>
      simp only [gain?, h]
      rfl
    | ok z =>
      simp only [gain?, h]
      rfl

end Call

/-! ## Events of an action -/

/-- The calls that a batch makes: one for each request that can be read, up to the first that cannot
be read or does not succeed. -/
def Request.calls (model : List Char) : List Request → List Call
  | [] => []
  | r :: rs =>
    match Expression.parse r.expression with
    | .error _ => []
    | .ok t =>
      ⟨model, .circuit t, r.frequency⟩ ::
        if (Call.gain? ⟨model, .circuit t, r.frequency⟩).isSome then calls model rs else []

theorem Request.model_of_mem_calls {model : List Char} {requests : List Request} {c : Call}
    (h : c ∈ Request.calls model requests) : c.model = model := by
  induction requests with
  | nil => cases h
  | cons r rs ih =>
    rw [Request.calls] at h
    split at h
    · cases h
    · rcases List.mem_cons.mp h with rfl | h
      · rfl
      · split at h
        · exact ih h
        · cases h

namespace Session

def events (s : Session) (model : List Char) : Action → List Event
  | .evaluate target f =>
    match target.offer? s with
    | .error _ => []
    | .ok o => [.call ⟨model, o, f⟩]
  | .clear => [.clear model]
  | .run requests => (Request.calls model requests).map .call
  | .runFile file =>
    match file.load with
    | .error _ => []
    | .ok requests => (Request.calls model requests).map .call
  | _ => []

def after (s : Session) (acts : List (List Char × Action)) : Session :=
  acts.foldl (fun s a => (s.step a.1 a.2).session) s

def trace (s : Session) : List (List Char × Action) → List Event
  | [] => []
  | (model, a) :: rest => s.events model a ++ trace (s.step model a).session rest

theorem steps_session {s : Session} {acts : List (List Char × Action)} {i : ℕ} {o : Outcome}
    (h : (s.steps acts)[i]? = some o) : o.session = s.after (acts.take (i + 1)) := by
  induction acts generalizing s i with
  | nil => simp [steps] at h
  | cons a acts ih =>
    obtain ⟨model, a⟩ := a
    cases i with
    | zero =>
      obtain rfl : s.step model a = o := by simpa [steps] using h
      rfl
    | succ i =>
      have := ih (s := (s.step model a).session) (i := i) (by simpa [steps] using h)
      simpa [after] using this

/-- The events of an action are about the history that it is taken in. -/
theorem foreign_of_mem_events {s : Session} {model m : List Char} {a : Action} {e : Event}
    (hm : m ≠ model) (he : e ∈ s.events model a) : e.clears m = false ∧ e.gain? m = none := by
  have hcalls : ∀ requests : List Request, e ∈ (Request.calls model requests).map Event.call →
      e.clears m = false ∧ e.gain? m = none := by
    intro requests h
    obtain ⟨c, hc, rfl⟩ := List.mem_map.mp h
    exact ⟨rfl, if_neg (Request.model_of_mem_calls hc ▸ Ne.symm hm)⟩
  cases a with
  | evaluate target f =>
    simp only [events] at he
    split at he
    · cases he
    · obtain rfl := List.mem_singleton.mp he
      exact ⟨rfl, if_neg (Ne.symm hm)⟩
  | clear =>
    obtain rfl := List.mem_singleton.mp he
    exact ⟨beq_eq_false_iff_ne.mpr (Ne.symm hm), rfl⟩
  | run requests => exact hcalls requests he
  | runFile file =>
    simp only [events] at he
    split at he
    · cases he
    · exact hcalls _ he
  | _ => cases he

end Session

end Immittance
