import Mathlib
import Immittance.Proofs.Session.Event

/-!
# Histories of a session

A step makes of every history what its events make of it, so a run leaves in every history what
succeeded since it was last cleared.
-/

set_option autoImplicit false

namespace Immittance

namespace Session

theorem lookup_filter_ne {α : Type} {model m : List Char} (hm : m ≠ model) (kept : Kept α) :
    (kept.filter (·.1 != model)).lookup m = kept.lookup m := by
  induction kept with
  | nil => rfl
  | cons k kept ih =>
    obtain ⟨n, a⟩ := k
    by_cases hk : n = model
    · subst hk
      have hne : (m == n) = false := by simpa using hm
      rw [List.lookup_cons, hne, ← ih]
      simp
    · have hf : ((n, a) :: kept).filter (·.1 != model) =
          (n, a) :: kept.filter (·.1 != model) := by simp [hk]
      rw [hf, List.lookup_cons, List.lookup_cons, ih]

theorem history_withHistory_self (s : Session) (model : List Char) (h : History) :
    (s.withHistory model h).history model = h := by
  simp [history, withHistory]

theorem history_withHistory_of_ne (s : Session) {model m : List Char} (h : History)
    (hm : m ≠ model) : (s.withHistory model h).history m = s.history m := by
  have hne : (m == model) = false := by simpa using hm
  simp only [history, withHistory, List.lookup_cons, hne]
  rw [lookup_filter_ne hm]

/-! ## Beginning -/

theorem history_begin (s : Session) (model m : List Char) :
    (s.begin model).1.history m = s.history m := by
  rw [begin]
  cases h : s.histories.lookup model with
  | some _ => rfl
  | none =>
    by_cases hm : m = model
    · subst hm
      have hs : s.history m = [] := by rw [history, h]; rfl
      rw [hs]
      exact history_withHistory_self s m []
    · exact history_withHistory_of_ne s [] hm

theorem circuits_begin (s : Session) (model : List Char) :
    (s.begin model).1.circuits = s.circuits := by
  rw [begin]
  split <;> rfl

theorem snapshots_begin (s : Session) (model : List Char) :
    (s.begin model).1.snapshots = s.snapshots := by
  rw [begin]
  split <;> rfl

theorem offer?_begin (s : Session) (model : List Char) (target : Target) :
    target.offer? (s.begin model).1 = target.offer? s := by
  cases target with
  | expression e => rfl
  | offer o => rfl
  | kept name => rw [Target.offer?, Target.offer?, circuits_begin]

theorem events_begin (s : Session) (model : List Char) (a : Action) :
    (s.begin model).1.events model a = s.events model a := by
  cases a with
  | evaluate target f => rw [events, events, offer?_begin]
  | _ => rfl

/-! ## What a step makes of a history -/

theorem history_run (model : List Char) (h : History) (requests : List Request) :
    (h.run requests).1 = h ++ (Request.calls model requests).filterMap Call.gain? := by
  induction requests generalizing h with
  | nil => simp [History.run, Request.calls]
  | cons r rs ih =>
    rw [History.run, Request.calls, Request.entry, Expression.parseGiven]
    cases hp : Expression.parse r.expression with
    | error e => simp [Except.mapError, bind, Except.bind]
    | ok t =>
      have hc := Call.gain?_eq model (.circuit t) r.frequency
      cases he : Entry.evaluate (.circuit t) r.frequency with
      | error e =>
        rw [he] at hc
        simp [Except.mapError, bind, Except.bind, he, hc, Except.toOption]
      | ok x =>
        rw [he] at hc
        simp [Except.mapError, bind, Except.bind, he, hc, Except.toOption, ih]

theorem foldl_apply_calls {model : List Char} {calls : List Call} (h : History)
    (hc : ∀ c ∈ calls, c.model = model) :
    (calls.map Event.call).foldl (Event.apply model) h = h ++ calls.filterMap Call.gain? := by
  induction calls generalizing h with
  | nil => simp
  | cons c calls ih =>
    have hx : Event.apply model h (.call c) = h ++ c.gain?.toList := by
      simp [Event.apply, Event.clears, Event.gain?, hc c (by simp)]
    rw [List.map_cons, List.foldl_cons, hx, ih _ fun d hd => hc d (List.mem_cons_of_mem _ hd)]
    cases k : c.gain? <;> simp [k]

theorem history_run_self (s : Session) (model : List Char) (requests : List Request) :
    (s.run model requests).session.history model =
      ((Request.calls model requests).map Event.call).foldl (Event.apply model)
        (s.history model) := by
  rw [foldl_apply_calls _ fun c hc => Request.model_of_mem_calls hc, ← history_run]
  exact history_withHistory_self s model _

theorem history_act_self (s : Session) (model : List Char) (a : Action) :
    (s.act model a).session.history model =
      (s.events model a).foldl (Event.apply model) (s.history model) := by
  cases a with
  | evaluate target f =>
    rw [act, evaluate, events]
    cases ho : target.offer? s with
    | error e => rfl
    | ok o =>
      have hc := Call.gain?_eq model o f
      cases he : Entry.evaluate o f with
      | error e =>
        rw [he] at hc
        simp [he, Event.apply, Event.clears, Event.gain?, hc, Except.toOption]
      | ok x =>
        rw [he] at hc
        simp [he, Event.apply, Event.clears, Event.gain?, hc, Except.toOption,
          history_withHistory_self]
  | clear =>
    rw [act, events, List.foldl_cons, Event.apply_of_clear]
    exact history_withHistory_self s model []
  | run requests => exact history_run_self s model requests
  | runFile file =>
    rw [act, events]
    cases file.load with
    | error e => rfl
    | ok requests => exact history_run_self s model requests
  | _ =>
    rw [act]
    try split
    all_goals rfl

theorem history_act_of_ne (s : Session) {model m : List Char} (a : Action) (hm : m ≠ model) :
    (s.act model a).session.history m = s.history m := by
  have hrun : ∀ requests, (s.run model requests).session.history m = s.history m :=
    fun requests => history_withHistory_of_ne s _ hm
  cases a with
  | evaluate target f =>
    rw [act, evaluate]
    split
    · rfl
    · split
      · rfl
      · exact history_withHistory_of_ne s _ hm
  | clear => exact history_withHistory_of_ne s _ hm
  | run requests => exact hrun requests
  | runFile file =>
    rw [act]
    split
    · rfl
    · exact hrun _
  | _ =>
    rw [act]
    try split
    all_goals rfl

theorem history_step_of_ne (s : Session) {model m : List Char} (a : Action) (hm : m ≠ model) :
    (s.step model a).session.history m = s.history m := by
  rw [← history_begin s model m]
  exact history_act_of_ne _ a hm

theorem history_step (s : Session) (model m : List Char) (a : Action) :
    (s.step model a).session.history m =
      (s.events model a).foldl (Event.apply m) (s.history m) := by
  by_cases hm : m = model
  · subst hm
    rw [← events_begin, ← history_begin s m m]
    exact history_act_self _ m a
  · rw [history_step_of_ne s a hm,
      Event.foldl_apply_of_ne _ fun e he => foreign_of_mem_events hm he]

/-! ## What a run leaves behind -/

theorem history_after (s : Session) (acts : List (List Char × Action)) (m : List Char) :
    (s.after acts).history m = (s.trace acts).foldl (Event.apply m) (s.history m) := by
  induction acts generalizing s with
  | nil => rfl
  | cons a acts ih =>
    rw [trace, List.foldl_append, ← history_step]
    exact ih _

theorem history_after_empty (acts : List (List Char × Action)) (m : List Char) :
    (empty.after acts).history m = Event.since m (empty.trace acts) := by
  rw [history_after, ← Event.foldl_apply]
  rfl

theorem impedance_of_mem_history {acts : List (List Char × Action)} {m : List Char} {x : Entry}
    (hx : x ∈ (empty.after acts).history m) : x.circuit.impedance x.frequency = .ok x.result := by
  rw [history_after_empty] at hx
  obtain ⟨c, _, _, hc⟩ := Event.mem_since hx
  exact (Call.gain?_eq_some_iff.mp hc).2.2

structure Told (s : Session) (es : List Event) : Prop where
  history : ∀ m, s.history m = Event.since m es
  impedance : ∀ m, ∀ x ∈ s.history m, x.circuit.impedance x.frequency = .ok x.result
  entries : ∀ m, (s.step m (.view .entries)).answer = .ok (.snapshot (.entries (Event.since m es)))
  elements : ∀ m, (s.step m (.view .elements)).answer =
    .ok (.snapshot (.elements ((Event.since m es).map fun x => x.circuit)))
  frequencies : ∀ m, (s.step m (.view .frequencies)).answer =
    .ok (.snapshot (.frequencies ((Event.since m es).map fun x => x.frequency)))
  results : ∀ m, (s.step m (.view .results)).answer =
    .ok (.snapshot (.results ((Event.since m es).map fun x => x.result)))
  size : ∀ m, (s.step m .size).answer = .ok (.count (Event.since m es).length)

theorem view_step (s : Session) (m : List Char) (v : View) :
    (s.step m (.view v)).answer = .ok (.snapshot (.take v (s.history m))) := by
  rw [← history_begin s m m]
  rfl

theorem size_step (s : Session) (m : List Char) :
    (s.step m .size).answer = .ok (.count (s.history m).length) := by
  rw [← history_begin s m m]
  rfl

theorem told_after (acts : List (List Char × Action)) :
    Told (empty.after acts) (empty.trace acts) := by
  have h := history_after_empty acts
  refine ⟨h, fun m x hx => impedance_of_mem_history hx, ?_, ?_, ?_, ?_, ?_⟩
  · intro m
    rw [view_step, h]
    rfl
  · intro m
    rw [view_step, h]
    rfl
  · intro m
    rw [view_step, h]
    rfl
  · intro m
    rw [view_step, h]
    rfl
  · intro m
    rw [size_step, h]

/-! ## Evaluations and snapshots -/

/-- An evaluation answers with what it adds to its history, or fails and leaves all as it is. -/
theorem evaluate_step (s : Session) (model : List Char) (target : Target) (f : Float) :
    (∃ c z, target.offer? s = .ok (.circuit c) ∧ c.impedance f = .ok z ∧
      (s.step model (.evaluate target f)).answer = .ok (.phasor z) ∧
      (s.step model (.evaluate target f)).session.history model =
        s.history model ++ [⟨c, f, z⟩]) ∨
    ∃ e, (s.step model (.evaluate target f)).answer = .error e ∧
      ∀ m, (s.step model (.evaluate target f)).session.history m = s.history m := by
  have hstep : s.step model (.evaluate target f) =
      { (s.begin model).1.evaluate model target f with
        notes := (s.begin model).2 ++ ((s.begin model).1.evaluate model target f).notes } := rfl
  have hh := history_begin s model
  rw [hstep, evaluate, offer?_begin]
  cases ho : target.offer? s with
  | error e => exact Or.inr ⟨e, rfl, hh⟩
  | ok o =>
    cases he : Entry.evaluate o f with
    | error e =>
      simp only [he]
      exact Or.inr ⟨e, rfl, hh⟩
    | ok x =>
      have hx : Call.gain? ⟨model, o, f⟩ = some x := by
        rw [Call.gain?_eq, he]
        rfl
      obtain ⟨rfl, rfl, hz⟩ := Call.gain?_eq_some_iff.mp hx
      simp only [he]
      refine Or.inl ⟨x.circuit, x.result, rfl, hz, rfl, ?_⟩
      rw [history_withHistory_self, hh]

theorem snapshots_act (s : Session) {name : List Char} (model : List Char) {a : Action}
    (ha : ∀ v, a ≠ .snapshot name v) :
    (s.act model a).session.snapshots.lookup name = s.snapshots.lookup name := by
  cases a with
  | evaluate target f =>
    rw [act, evaluate]
    split
    · rfl
    · split <;> rfl
  | snapshot n v =>
    have hne : (name == n) = false := by
      rw [beq_eq_false_iff_ne]
      exact fun h => ha v (h ▸ rfl)
    rw [act, List.lookup_cons, hne]
  | _ =>
    rw [act]
    try split
    all_goals rfl

theorem snapshots_after (s : Session) {name : List Char} {acts : List (List Char × Action)}
    (ha : ∀ a ∈ acts, ∀ v, a.2 ≠ .snapshot name v) :
    (s.after acts).snapshots.lookup name = s.snapshots.lookup name := by
  induction acts generalizing s with
  | nil => rfl
  | cons a acts ih =>
    have hstep : (s.step a.1 a.2).session.snapshots.lookup name = s.snapshots.lookup name := by
      rw [← snapshots_begin s a.1]
      exact snapshots_act _ a.1 (ha a (by simp))
    rw [← hstep]
    exact ih _ fun b hb => ha b (List.mem_cons_of_mem _ hb)

theorem snapshots_suffix_act (s : Session) (model : List Char) (a : Action) :
    s.snapshots <:+ (s.act model a).session.snapshots := by
  cases a with
  | evaluate target f =>
    rw [act, evaluate]
    split
    · exact List.suffix_rfl
    · split
      · exact List.suffix_rfl
      · exact List.suffix_rfl
  | snapshot name v => exact List.suffix_cons _ _
  | _ =>
    rw [act]
    try split
    all_goals exact List.suffix_rfl

theorem snapshots_suffix_after (s : Session) (acts : List (List Char × Action)) :
    s.snapshots <:+ (s.after acts).snapshots := by
  induction acts generalizing s with
  | nil => exact List.suffix_rfl
  | cons a acts ih =>
    have hstep : s.snapshots <:+ (s.step a.1 a.2).session.snapshots := by
      rw [← snapshots_begin s a.1]
      exact snapshots_suffix_act _ a.1 a.2
    exact hstep.trans (ih _)

theorem snapshot_step (s : Session) (model name : List Char) (v : View) :
    (s.step model (.snapshot name v)).session.snapshots =
      (name, .take v (s.history model)) :: s.snapshots := by
  rw [← history_begin s model model, ← snapshots_begin s model]
  rfl

theorem recall_step {s : Session} {name : List Char} {shot : Snapshot} (model : List Char)
    (h : s.snapshots.lookup name = some shot) :
    (s.step model (Action.recall name)).answer = .ok (.snapshot shot) := by
  rw [← snapshots_begin s model] at h
  show ((s.begin model).1.act model (Action.recall name)).answer = _
  rw [act, h]

theorem recall_snapshot (s : Session) (model m name : List Char) (v : View)
    {later : List (List Char × Action)} (hl : ∀ a ∈ later, ∀ w, a.2 ≠ .snapshot name w) :
    (((s.step model (.snapshot name v)).session.after later).step m (Action.recall name)).answer =
      .ok (.snapshot (.take v (s.history model))) := by
  apply recall_step
  rw [snapshots_after _ hl, snapshot_step, List.lookup_cons_self]

/-- After each of any actions every history is what succeeded in it since it was last cleared. An
evaluation that fails changes no history, no action changes the history of another model, and a
snapshot stays as it was taken, to be recalled until another is kept under its name. -/
theorem histories_of_successes (acts : List (List Char × Action)) :
    (∀ i o, (empty.steps acts)[i]? = some o → Told o.session (empty.trace (acts.take (i + 1)))) ∧
    Told (empty.after acts) (empty.trace acts) ∧
    (∀ model target f,
      (∃ c z, target.offer? (empty.after acts) = .ok (.circuit c) ∧ c.impedance f = .ok z ∧
        ((empty.after acts).step model (.evaluate target f)).answer = .ok (.phasor z) ∧
        ((empty.after acts).step model (.evaluate target f)).session.history model =
          (empty.after acts).history model ++ [⟨c, f, z⟩]) ∨
      ∃ e, ((empty.after acts).step model (.evaluate target f)).answer = .error e ∧
        ∀ m, ((empty.after acts).step model (.evaluate target f)).session.history m =
          (empty.after acts).history m) ∧
    (∀ model m a, m ≠ model →
      ((empty.after acts).step model a).session.history m = (empty.after acts).history m) ∧
    (∀ model name v later, (name, Snapshot.take v ((empty.after acts).history model)) ∈
      (((empty.after acts).step model (.snapshot name v)).session.after later).snapshots) ∧
    ∀ model m name v later, (∀ a ∈ later, ∀ w, a.2 ≠ Action.snapshot name w) →
      ((((empty.after acts).step model (.snapshot name v)).session.after later).step m
        (Action.recall name)).answer =
          .ok (.snapshot (.take v ((empty.after acts).history model))) := by
  refine ⟨?_, told_after acts, ?_, ?_, ?_, ?_⟩
  · intro i o h
    rw [steps_session h]
    exact told_after _
  · exact fun model target f => evaluate_step _ model target f
  · exact fun model m a hm => history_step_of_ne _ a hm
  · intro model name v later
    have hkept := snapshots_suffix_after ((empty.after acts).step model (.snapshot name v)).session later
    rw [snapshot_step] at hkept
    exact hkept.subset List.mem_cons_self
  · exact fun model m name v later hl => recall_snapshot _ model m name v hl

theorem histories_of_resistor :
    let resistor := Circuit.part ⟨Kind.resistor, (100 : Float)⟩
    let acts := [(['a'], Action.evaluate (.offer (.ok (.circuit resistor))) 50), (['b'], .clear),
      (['a'], .evaluate (.offer (.ok (.value .null))) 50)]
    ['b'] ≠ ['a'] ∧
    (empty.after acts).history ['a'] = [⟨resistor, 50, ⟨100, Scalar.zero⟩⟩] ∧
    ((empty.after acts).step ['a'] .clear).session.history ['b'] = [] ∧
    ((((empty.after acts).step ['a'] (.snapshot ['s'] .frequencies)).session.after
      [(['a'], .clear)]).step ['b'] (Action.recall ['s'])).answer =
        .ok (.snapshot (.frequencies [50])) := by
  intro resistor acts
  obtain ⟨_, told, _, other, _, kept⟩ := histories_of_successes acts
  have ha : (empty.after acts).history ['a'] = [⟨resistor, 50, ⟨100, Scalar.zero⟩⟩] :=
    (told.history ['a']).trans rfl
  have hb : (['b'] : List Char) ≠ ['a'] := by decide
  refine ⟨hb, ha, ?_, ?_⟩
  · exact (other ['a'] ['b'] .clear hb).trans ((told.history ['b']).trans rfl)
  · have hl : ∀ a ∈ [((['a'] : List Char), Action.clear)], ∀ w, a.2 ≠ Action.snapshot ['s'] w := by
      simp
    rw [kept ['a'] ['b'] ['s'] .frequencies _ hl, ha]
    rfl

end Session

end Immittance
