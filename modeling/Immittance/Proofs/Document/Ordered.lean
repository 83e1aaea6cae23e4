import Mathlib
import Immittance.Document.Value
import Immittance.Proofs.Document.Sorting

/-!
# Lists that can be sorted

Values of a document have an order if they are of one rank: numbers, texts, bytes, dates, or moments
that all have an offset or all have none. Sorting compares every element of a list of two or more with
another one, so it comes to an end exactly if the elements are of one rank. A single one is not
compared and may be anything.
-/

set_option autoImplicit false

namespace Immittance

namespace Order

section
variable {ε α κ : Type} {before : α → α → Except ε Bool} {rank : α → Option κ}

def Ranks (before : α → α → Except ε Bool) (rank : α → Option κ) : Prop :=
  ∀ {x y b}, before x y = .ok b → ∃ k, rank x = some k ∧ rank y = some k

theorem Ranks.rank_eq (hr : Ranks before rank) {x y : α} {b : Bool} {k : κ}
    (h : before x y = .ok b) (hy : rank y = some k) : rank x = some k := by
  obtain ⟨j, hx, hj⟩ := hr h
  rw [hx, ← hj, hy]

theorem Ranks.run (hr : Ranks before rank) {falls : Bool} {last : α} {k : κ}
    (hlast : rank last = some k) {xs : List α} {r : List α × List α}
    (h : Order.run before falls last xs = .ok r) : ∀ x ∈ r.1, rank x = some k := by
  induction xs generalizing last r with
  | nil =>
    obtain rfl := Except.ok.inj h
    simp
  | cons x xs ih =>
    rw [Order.run] at h
    obtain ⟨b, hb, h⟩ := bind_eq_ok_iff.mp h
    by_cases hgoes : (b == falls) = true
    · rw [if_pos hgoes] at h
      obtain ⟨s, hs, h⟩ := bind_eq_ok_iff.mp h
      obtain rfl := Except.ok.inj h
      have hx := hr.rank_eq hb hlast
      exact List.forall_mem_cons.mpr ⟨hx, ih hx hs⟩
    · rw [if_neg hgoes] at h
      obtain rfl := Except.ok.inj h
      simp

theorem Ranks.firstRun (hr : Ranks before rank) {x y : α} {zs : List α} {r : List α × List α}
    (h : Order.firstRun before (x :: y :: zs) = .ok r) :
    ∃ k, r.1 ≠ [] ∧ ∀ z ∈ r.1, rank z = some k := by
  obtain ⟨falls, s, hfalls, hs, rfl⟩ := firstRun_eq_ok_iff.mp h
  obtain ⟨k, hy, hx⟩ := hr hfalls
  have hrun : ∀ z ∈ x :: y :: s.1, rank z = some k :=
    List.forall_mem_cons.mpr ⟨hx, List.forall_mem_cons.mpr ⟨hy, hr.run hy hs⟩⟩
  cases falls with
  | true => exact ⟨k, by simp, fun z hz => hrun z (List.mem_reverse.mp hz)⟩
  | false => exact ⟨k, by simp, hrun⟩

theorem Ranks.place (hr : Ranks before rank) {x : α} {sorted : List α} {k : κ} (hne : sorted ≠ [])
    (hsorted : ∀ y ∈ sorted, rank y = some k) {n : ℕ}
    (h : Order.place before x sorted 0 sorted.length = .ok n) : rank x = some k := by
  have hlen := List.length_pos_of_ne_nil hne
  have hmiddle : 0 + (sorted.length - 0) / 2 < sorted.length := by omega
  rw [Order.place, if_pos hlen] at h
  simp only [List.getElem?_eq_getElem hmiddle] at h
  obtain ⟨b, hb, -⟩ := bind_eq_ok_iff.mp h
  exact hr.rank_eq hb (hsorted _ (List.getElem_mem hmiddle))

theorem Ranks.insert (hr : Ranks before rank) {sorted rest ys : List α} {k : κ} (hne : sorted ≠ [])
    (hsorted : ∀ y ∈ sorted, rank y = some k)
    (h : rest.foldlM (fun sorted x => do
      return sorted.insertIdx (← Order.place before x sorted 0 sorted.length) x) sorted = .ok ys) :
    ∀ y ∈ ys, rank y = some k := by
  induction rest generalizing sorted with
  | nil =>
    obtain rfl := Except.ok.inj h
    exact hsorted
  | cons x rest ih =>
    rw [List.foldlM_cons] at h
    obtain ⟨next, hnext, h⟩ := bind_eq_ok_iff.mp h
    obtain ⟨n, hn, hnext⟩ := bind_eq_ok_iff.mp hnext
    obtain rfl := Except.ok.inj hnext
    have hx := hr.place hne hsorted hn
    have hperm := List.perm_insertIdx x sorted (place_le x sorted (Nat.zero_le _) hn)
    apply ih _ _ h
    · intro hnil
      rw [hnil] at hperm
      exact List.cons_ne_nil _ _ hperm.symm.eq_nil
    · have hall : ∀ y ∈ x :: sorted, rank y = some k := List.forall_mem_cons.mpr ⟨hx, hsorted⟩
      exact fun y hy => hall y (hperm.subset hy)

theorem Ranks.of_sortBy (hr : Ranks before rank) {xs ys : List α} (hlen : 2 ≤ xs.length)
    (h : sortBy before xs = .ok ys) : ∃ k, ∀ x ∈ xs, rank x = some k := by
  obtain ⟨r, hrun, hinsert⟩ := bind_eq_ok_iff.mp h
  match xs, hlen with
  | x :: y :: zs, _ =>
    obtain ⟨k, hne, hrank⟩ := hr.firstRun hrun
    exact ⟨k, fun z hz => hr.insert hne hrank hinsert z ((sortBy_perm h).symm.subset hz)⟩

/-- A list is sorted exactly if it has no two elements or if all are of one rank. -/
theorem exists_sortBy_iff (hr : ∀ x y, (∃ b, before x y = .ok b) ↔
    ∃ k, rank x = some k ∧ rank y = some k) {xs : List α} :
    (∃ ys, sortBy before xs = .ok ys) ↔ xs.length ≤ 1 ∨ ∃ k, ∀ x ∈ xs, rank x = some k := by
  constructor
  · rintro ⟨ys, h⟩
    by_cases hlen : xs.length ≤ 1
    · exact Or.inl hlen
    · have hranks : Ranks before rank := fun {x y b} hb => (hr x y).mp ⟨b, hb⟩
      exact Or.inr (hranks.of_sortBy (not_le.mp hlen) h)
  · rintro (hlen | ⟨k, hk⟩)
    · match xs, hlen with
      | [], _ => exact ⟨[], rfl⟩
      | [x], _ => exact ⟨[x], rfl⟩
    · exact exists_sortBy fun x hx y hy => (hr x y).mpr ⟨k, hk x hx, hk y hy⟩

end

end Order

/-! ## The ranks of values -/

namespace Value

variable {α : Type}

inductive Rank where
  | number
  | text
  | bytes
  | date
  | moment (offset : Bool)
deriving DecidableEq

def rank? : Value α → Option Rank
  | bool _ | int _ | float _ => some .number
  | text _ => some .text
  | bytes _ => some .bytes
  | date _ => some .date
  | moment m => some (.moment m.offset.isSome)
  | null | list _ | pairs _ | set _ | map _ => none

theorem isNumber_iff {a : Value α} : a.isNumber = true ↔ a.rank? = some .number := by
  cases a <;> simp [isNumber, rank?]

/-- Two values have an order exactly if they are of one rank. -/
theorem exists_before_iff [Letter α] (a b : Value α) :
    (∃ r, a.before b = .ok r) ↔ ∃ k, a.rank? = some k ∧ b.rank? = some k := by
  unfold before
  by_cases hnumber : (a.isNumber && b.isNumber) = true
  · obtain ⟨ha, hb⟩ := Bool.and_eq_true_iff.mp hnumber
    rw [if_pos hnumber]
    exact iff_of_true ⟨_, rfl⟩ ⟨.number, isNumber_iff.mp ha, isNumber_iff.mp hb⟩
  · rw [if_neg hnumber]
    cases a with
    | moment m =>
      cases b with
      | moment n =>
        dsimp only
        by_cases h : m.offset.isSome = n.offset.isSome
        · rw [if_pos (beq_iff_eq.mpr h)]
          exact iff_of_true ⟨_, rfl⟩ ⟨_, rfl, congrArg (fun o => some (Rank.moment o)) h.symm⟩
        · rw [if_neg (by rwa [beq_iff_eq])]
          simp [rank?, eq_comm, h]
      | _ => simp [rank?]
    | _ => cases b <;> simp [rank?, isNumber] at hnumber ⊢

end Value

end Immittance
