import Mathlib
import Immittance.Proofs.Results
import Immittance.Proofs.Session.Histories

/-!
# Batches of requests

A batch gets as far as the requests in front that can be read and evaluated. Each of them leaves one
entry and gives one calculation, the first that fails ends the batch with its failure, and what stands
behind it makes no difference. So a batch may be cut in two and run one half after the other.
-/

set_option autoImplicit false

namespace Immittance

namespace Request

inductive Makes (r : Request) : Entry → Prop
  | entry {c : Circuit Float} {z : Phasor Float} (parsed : Expression.parse r.expression = .ok c)
      (evaluated : c.impedance r.frequency = .ok z) : Makes r ⟨c, r.frequency, z⟩

inductive Fails (r : Request) : Failure → Prop
  | expression {e : ParseError} (parsed : Expression.parse r.expression = .error e) :
      Fails r (.expression e)
  | circuit {c : Circuit Float} {e : Fault Float} (parsed : Expression.parse r.expression = .ok c)
      (evaluated : c.impedance r.frequency = .error e) : Fails r (.circuit e)

theorem entry_of_parsed {r : Request} {c : Circuit Float}
    (h : Expression.parse r.expression = .ok c) :
    r.entry = (c.impedance r.frequency).mapError .circuit >>=
      fun z => .ok ⟨c, r.frequency, z⟩ := by
  rw [entry, Expression.parseGiven, h]
  rfl

theorem entry_eq_ok_iff {r : Request} {e : Entry} : r.entry = .ok e ↔ r.Makes e := by
  cases h : Expression.parse r.expression with
  | error x =>
    have hr : r.entry = .error (.expression x) := by
      rw [entry, Expression.parseGiven, h]
      rfl
    rw [hr]
    constructor
    · intro k
      cases k
    · rintro ⟨parsed, _⟩
      rw [h] at parsed
      cases parsed
  | ok c =>
    rw [entry_of_parsed h, bind_eq_ok_iff]
    constructor
    · rintro ⟨z, hz, he⟩
      obtain rfl := Except.ok.inj he
      exact .entry h (mapError_eq_ok_iff.mp hz)
    · rintro ⟨parsed, evaluated⟩
      obtain rfl := Except.ok.inj (h.symm.trans parsed)
      exact ⟨_, mapError_eq_ok_iff.mpr evaluated, rfl⟩

theorem entry_eq_error_iff {r : Request} {e : Failure} : r.entry = .error e ↔ r.Fails e := by
  cases h : Expression.parse r.expression with
  | error x =>
    have hr : r.entry = .error (.expression x) := by
      rw [entry, Expression.parseGiven, h]
      rfl
    rw [hr]
    constructor
    · intro k
      obtain rfl := Except.error.inj k
      exact .expression h
    · rintro (parsed | ⟨parsed, _⟩)
      · rw [Except.error.inj (h.symm.trans parsed)]
      · rw [h] at parsed
        cases parsed
  | ok c =>
    rw [entry_of_parsed h, bind_eq_error_iff]
    constructor
    · rintro (hz | ⟨z, _, he⟩)
      · obtain ⟨x, hx, rfl⟩ := mapError_eq_error_iff.mp hz
        exact .circuit h hx
      · cases he
    · rintro (parsed | ⟨parsed, evaluated⟩)
      · rw [h] at parsed
        cases parsed
      · obtain rfl := Except.ok.inj (h.symm.trans parsed)
        exact Or.inl (mapError_eq_error_iff.mpr ⟨_, evaluated, rfl⟩)

theorem makes_or_fails (r : Request) : (∃ e, r.Makes e) ∨ ∃ e, r.Fails e := by
  cases h : r.entry with
  | ok e => exact Or.inl ⟨e, entry_eq_ok_iff.mp h⟩
  | error e => exact Or.inr ⟨e, entry_eq_error_iff.mp h⟩

theorem not_makes_of_fails {r : Request} {e : Failure} (h : r.Fails e) (x : Entry) :
    ¬r.Makes x := by
  intro k
  have := (entry_eq_error_iff.mpr h).symm.trans (entry_eq_ok_iff.mpr k)
  cases this

/-- Either every request of a batch makes an entry, or there is a first that fails. -/
theorem exists_first_failure (rs : List Request) :
    (∃ made, List.Forall₂ Makes rs made) ∨
      ∃ before r after made e, rs = before ++ r :: after ∧ List.Forall₂ Makes before made ∧
        r.Fails e := by
  cases h : rs.mapM entry with
  | ok made => exact Or.inl ⟨made, (mapM_eq_ok_iff.mp h).imp fun _ _ => entry_eq_ok_iff.mp⟩
  | error e =>
    obtain ⟨before, r, after, rfl, hb, hr⟩ := mapM_eq_error_iff.mp h
    cases hm : before.mapM entry with
    | ok made =>
      exact Or.inr ⟨before, r, after, made, e, rfl,
        (mapM_eq_ok_iff.mp hm).imp fun _ _ => entry_eq_ok_iff.mp, entry_eq_error_iff.mp hr⟩
    | error e' =>
      obtain ⟨b, hmem, hb'⟩ := exists_of_mapM_error hm
      obtain ⟨x, hx⟩ := hb b hmem
      rw [hx] at hb'
      cases hb'

end Request

namespace History

open Request

def named (rs : List Request) (made : History) : List Calculation :=
  List.zipWith (fun r e => e.named r.name) rs made

theorem run_cons_of_makes {r : Request} {e : Entry} (h : History) (rs : List Request)
    (hr : r.Makes e) :
    h.run (r :: rs) =
      (((h ++ [e]).run rs).1, ((h ++ [e]).run rs).2.map (e.named r.name :: ·)) := by
  rw [run, entry_eq_ok_iff.mpr hr]

theorem run_cons_of_fails {r : Request} {e : Failure} (h : History) (rs : List Request)
    (hr : r.Fails e) : h.run (r :: rs) = (h, .error e) := by
  rw [run, entry_eq_error_iff.mpr hr]

/-- A batch in two halves: the second is run only if the first succeeds, in the history that the
first leaves, and its calculations stand behind those of the first. -/
theorem run_append (h : History) (xs ys : List Request) :
    h.run (xs ++ ys) =
      match h.run xs with
      | (h', .error e) => (h', .error e)
      | (h', .ok cs) => ((h'.run ys).1, (h'.run ys).2.map (cs ++ ·)) := by
  induction xs generalizing h with
  | nil =>
    cases hy : h.run ys with
    | mk h' answer => cases answer <;> simp [run, hy, Except.map]
  | cons r xs ih =>
    rcases makes_or_fails r with ⟨x, hx⟩ | ⟨e, he⟩
    · rw [List.cons_append, run_cons_of_makes _ _ hx, run_cons_of_makes _ _ hx, ih]
      cases hxs : (h ++ [x]).run xs with
      | mk h' answer =>
        cases answer with
        | error e => rfl
        | ok cs =>
          cases hys : h'.run ys with
          | mk h'' rest => cases rest <;> simp [hys, Except.map]
    · rw [List.cons_append, run_cons_of_fails _ _ he, run_cons_of_fails _ _ he]

theorem run_of_makes (h : History) {rs : List Request} {made : History}
    (hm : List.Forall₂ Makes rs made) : h.run rs = (h ++ made, .ok (named rs made)) := by
  induction hm generalizing h with
  | nil => simp [run, named]
  | cons hr _ ih =>
    rw [run_cons_of_makes _ _ hr, ih]
    simp [named, Except.map]

theorem run_of_fails (h : History) {before : List Request} {made : History} {r : Request}
    {e : Failure} (after : List Request) (hm : List.Forall₂ Makes before made) (hr : r.Fails e) :
    h.run (before ++ r :: after) = (h ++ made, .error e) := by
  rw [run_append, run_of_makes h hm]
  simp only [run_cons_of_fails _ _ hr]
  rfl

theorem runNotes_of_fails (before : List Request) {r : Request} {e : Failure} (hr : r.Fails e)
    (after : List Request) : runNotes (before ++ r :: after) = runNotes (before ++ [r]) := by
  induction before with
  | nil => simp only [List.nil_append, runNotes, entry_eq_error_iff.mpr hr]
  | cons b before ih => simp only [List.cons_append, runNotes, ih]

/-- An entry behind a history, found by its place. -/
theorem entryAt_append (h made : History) (i : ℕ) :
    entryAt (h ++ made) ((h.length + i : ℕ) : ℤ) =
      match made[i]? with
      | some e => .ok e
      | none => .error .noEntry := by
  have hneg : ¬((h.length + i : ℕ) : ℤ) < 0 := by omega
  have hget : (h ++ made)[h.length + i]? = made[i]? := by
    rw [List.getElem?_append_right (by omega), Nat.add_sub_cancel_left]
  cases hmade : made[i]? with
  | none => simp only [entryAt, if_neg hneg, Int.toNat_natCast, hget, hmade]
  | some e => simp only [entryAt, if_neg hneg, Int.toNat_natCast, hget, hmade]

/-- The number of requests in front that make an entry is the greatest for which that is so. -/
theorem isGreatest_prefix {before : List Request} (after : List Request) {made : History}
    (hm : List.Forall₂ Makes before made) (hstop : ∀ r ∈ after.head?, ∀ e, ¬r.Makes e) :
    IsGreatest {m | m ≤ (before ++ after).length ∧
      ∀ r ∈ (before ++ after).take m, ∃ e, r.Makes e} before.length := by
  constructor
  · refine ⟨by simp, fun r hr => ?_⟩
    rw [List.take_left' rfl] at hr
    exact exists_forall₂_iff.mp ⟨made, hm⟩ r hr
  · rintro m ⟨hm', hmakes⟩
    by_contra hlt
    cases after with
    | nil => simp at hm'; omega
    | cons r after =>
      obtain ⟨e, he⟩ := hmakes r (by
        rw [List.take_append, List.mem_append]
        right
        obtain ⟨k, hk⟩ : ∃ k, m - before.length = k + 1 := ⟨m - before.length - 1, by omega⟩
        simp [hk])
      exact hstop r rfl e he

theorem run_outcome_of_makes (h : History) {rs : List Request} {made : History}
    (hm : List.Forall₂ Makes rs made) :
    ∃ records, (h.run rs).2 = .ok records ∧ records.length = rs.length ∧
      ∀ i r, rs[i]? = some r → ∃ e, entryAt (h.run rs).1 ((h.length + i : ℕ) : ℤ) = .ok e ∧
        records[i]? = some (e.named r.name) := by
  have hlen := hm.length_eq
  rw [run_of_makes h hm]
  refine ⟨named rs made, rfl, by simp [named, hlen], fun i r hr => ?_⟩
  obtain ⟨hi, rfl⟩ := List.getElem?_eq_some_iff.mp hr
  have hmade : made[i]? = some made[i] := List.getElem?_eq_getElem _
  refine ⟨made[i], ?_, ?_⟩
  · rw [entryAt_append, hmade]
  · simp [named, hi, hlen ▸ hi]

theorem run_step (s : Session) (model : List Char) (rs : List Request) :
    (s.step model (.run rs)).session.history model = ((s.history model).run rs).1 ∧
      (s.step model (.run rs)).answer = ((s.history model).run rs).2.map .calculations := by
  rw [← Session.history_begin s model model]
  exact ⟨Session.history_withHistory_self _ model _, rfl⟩

/-- A batch makes entries of the longest part in front whose requests can be read and evaluated, and
they stand in order behind the history. If that part is the whole batch its calculations are those of
the new entries under the names of their requests; else the batch fails as the next request does,
whatever stands behind that. A batch in two halves is two batches, and in a session it is run in the
history of its model. -/
theorem run_prefix (h : History) (rs : List Request) :
    (∃ k made, IsGreatest {m | m ≤ rs.length ∧ ∀ r ∈ rs.take m, ∃ e, r.Makes e} k ∧
      List.Forall₂ Makes (rs.take k) made ∧ (h.run rs).1 = h ++ made ∧
      ((k = rs.length ∧
        ∃ records, (h.run rs).2 = .ok records ∧ records.length = rs.length ∧
          ∀ i r, rs[i]? = some r → ∃ e, entryAt (h.run rs).1 ((h.length + i : ℕ) : ℤ) = .ok e ∧
            records[i]? = some (e.named r.name)) ∨
      ∃ r e, rs[k]? = some r ∧ r.Fails e ∧ (h.run rs).2 = .error e ∧
        ∀ later, h.run (rs.take (k + 1) ++ later) = h.run rs ∧
          runNotes (rs.take (k + 1) ++ later) = runNotes rs)) ∧
    (∀ xs ys, h.run (xs ++ ys) =
      match h.run xs with
      | (h', .error e) => (h', .error e)
      | (h', .ok cs) => ((h'.run ys).1, (h'.run ys).2.map (cs ++ ·))) ∧
    ∀ (s : Session) (model : List Char), s.history model = h →
      (s.step model (.run rs)).session.history model = (h.run rs).1 ∧
      (s.step model (.run rs)).answer = (h.run rs).2.map .calculations ∧
      ∀ m, m ≠ model → (s.step model (.run rs)).session.history m = s.history m := by
  refine ⟨?_, run_append h, ?_⟩
  · rcases exists_first_failure rs with ⟨made, hm⟩ | ⟨before, r, after, made, e, rfl, hm, hr⟩
    · have hgreatest := isGreatest_prefix [] hm (by simp)
      rw [List.append_nil] at hgreatest
      refine ⟨rs.length, made, hgreatest, ?_, ?_, Or.inl ⟨rfl, run_outcome_of_makes h hm⟩⟩
      · rw [List.take_length]
        exact hm
      · rw [run_of_makes h hm]
    · have hstop : ∀ q ∈ (r :: after).head?, ∀ x, ¬q.Makes x := by
        rintro q hq x
        obtain rfl : r = q := Option.some.inj hq
        exact not_makes_of_fails hr x
      have htake : (before ++ r :: after).take (before.length + 1) = before ++ [r] := by
        rw [List.take_append, List.take_of_length_le (by omega), Nat.add_sub_cancel_left]
        rfl
      refine ⟨before.length, made, isGreatest_prefix (r :: after) hm hstop, ?_, ?_, Or.inr ⟨r, e, ?_⟩⟩
      · rw [List.take_left' rfl]
        exact hm
      · rw [run_of_fails h after hm hr]
      · refine ⟨by simp, hr, by rw [run_of_fails h after hm hr], fun later => ?_⟩
        rw [htake, List.append_assoc, List.singleton_append, run_of_fails h later hm hr,
          run_of_fails h after hm hr, runNotes_of_fails before hr later,
          runNotes_of_fails before hr after]
        exact ⟨rfl, rfl⟩
  · rintro s model rfl
    obtain ⟨hh, ha⟩ := run_step s model rs
    exact ⟨hh, ha, fun m hm => Session.history_step_of_ne s _ hm⟩

end History

end Immittance
