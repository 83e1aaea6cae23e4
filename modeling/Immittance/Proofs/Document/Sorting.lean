import Mathlib
import Immittance.Document.Order
import Immittance.Proofs.Results

/-!
# Sorting keeps what it sorts

Sorting by an order that may fail gives a permutation of the list if it gives anything, and it does
give something where no two elements of the list fail to be compared.
-/

set_option autoImplicit false

namespace Immittance.Order

variable {ε α : Type} {before : α → α → Except ε Bool}

/-! ## Permutations -/

theorem run_append {falls : Bool} {last : α} {xs : List α} {r : List α × List α}
    (h : run before falls last xs = .ok r) : r.1 ++ r.2 = xs := by
  induction xs generalizing last r with
  | nil =>
    obtain rfl := Except.ok.inj h
    rfl
  | cons x xs ih =>
    rw [run] at h
    obtain ⟨b, _, h⟩ := bind_eq_ok_iff.mp h
    cases hgoes : b == falls with
    | true =>
      rw [if_pos hgoes] at h
      obtain ⟨s, hs, h⟩ := bind_eq_ok_iff.mp h
      obtain rfl := Except.ok.inj h
      exact congrArg (x :: ·) (ih hs)
    | false =>
      rw [if_neg (Bool.not_eq_true _ ▸ hgoes)] at h
      obtain rfl := Except.ok.inj h
      rfl

/-- The first two elements are compared, and the run goes on from the second. -/
theorem firstRun_eq_ok_iff {x y : α} {zs : List α} {r : List α × List α} :
    firstRun before (x :: y :: zs) = .ok r ↔ ∃ falls s, before y x = .ok falls ∧
      run before falls y zs = .ok s ∧
      r = (if falls then (x :: y :: s.1).reverse else x :: y :: s.1, s.2) := by
  rw [firstRun, bind_eq_ok_iff]
  constructor
  · rintro ⟨falls, hfalls, h⟩
    obtain ⟨s, hs, h⟩ := bind_eq_ok_iff.mp h
    exact ⟨falls, s, hfalls, hs, (Except.ok.inj h).symm⟩
  · rintro ⟨falls, s, hfalls, hs, rfl⟩
    exact ⟨falls, hfalls, bind_eq_ok_iff.mpr ⟨s, hs, rfl⟩⟩

theorem firstRun_perm {xs : List α} {r : List α × List α} (h : firstRun before xs = .ok r) :
    (r.1 ++ r.2).Perm xs := by
  match xs with
  | [] =>
    obtain rfl := Except.ok.inj h
    exact .refl _
  | [x] =>
    obtain rfl := Except.ok.inj h
    exact .refl _
  | x :: y :: zs =>
    obtain ⟨falls, s, -, hs, rfl⟩ := firstRun_eq_ok_iff.mp h
    rw [← run_append hs]
    cases falls with
    | true => exact (List.reverse_perm _).append_right _
    | false => exact .refl _

theorem place_le (x : α) (sorted : List α) {low high k : ℕ} (hle : low ≤ high)
    (h : place before x sorted low high = .ok k) : k ≤ high := by
  induction hn : high - low using Nat.strong_induction_on generalizing low high with
  | _ n ih =>
    subst hn
    rw [place] at h
    by_cases hlt : low < high
    · rw [if_pos hlt] at h
      cases hy : sorted[low + (high - low) / 2]? with
      | none =>
        simp only [hy] at h
        obtain rfl := Except.ok.inj h
        exact hle
      | some y =>
        simp only [hy] at h
        obtain ⟨b, _, h⟩ := bind_eq_ok_iff.mp h
        cases b with
        | true =>
          have := ih _ (by omega) (by omega) h rfl
          omega
        | false => exact ih _ (by omega) (by omega) h rfl
    · rw [if_neg hlt] at h
      obtain rfl := Except.ok.inj h
      exact hle

theorem insert_perm {sorted rest ys : List α}
    (h : rest.foldlM (fun sorted x => do
      return sorted.insertIdx (← place before x sorted 0 sorted.length) x) sorted = .ok ys) :
    ys.Perm (sorted ++ rest) := by
  induction rest generalizing sorted with
  | nil =>
    obtain rfl := Except.ok.inj h
    rw [List.append_nil]
  | cons x rest ih =>
    rw [List.foldlM_cons] at h
    obtain ⟨next, hnext, h⟩ := bind_eq_ok_iff.mp h
    obtain ⟨k, hk, hnext⟩ := bind_eq_ok_iff.mp hnext
    obtain rfl := Except.ok.inj hnext
    have hx := List.perm_insertIdx x sorted (place_le x sorted (Nat.zero_le _) hk)
    exact (ih h).trans ((hx.append_right rest).trans List.perm_middle.symm)

theorem sortBy_perm {xs ys : List α} (h : sortBy before xs = .ok ys) : ys.Perm xs := by
  obtain ⟨r, hr, h⟩ := bind_eq_ok_iff.mp h
  exact (insert_perm h).trans (firstRun_perm hr)

/-! ## Success -/

def Comparable (before : α → α → Except ε Bool) (xs : List α) : Prop :=
  ∀ x ∈ xs, ∀ y ∈ xs, ∃ b, before x y = .ok b

theorem Comparable.perm {xs ys : List α} (h : Comparable before xs) (hp : ys.Perm xs) :
    Comparable before ys :=
  fun x hx y hy => h x (hp.subset hx) y (hp.subset hy)

theorem Comparable.tail {x : α} {xs : List α} (h : Comparable before (x :: xs)) :
    Comparable before xs :=
  fun y hy z hz => h y (List.mem_cons_of_mem x hy) z (List.mem_cons_of_mem x hz)

theorem exists_run (falls : Bool) {last : α} {xs : List α} (h : Comparable before (last :: xs)) :
    ∃ r, run before falls last xs = .ok r := by
  induction xs generalizing last with
  | nil => exact ⟨_, rfl⟩
  | cons x xs ih =>
    obtain ⟨b, hb⟩ := h x (by simp) last (by simp)
    obtain ⟨r, hr⟩ := ih h.tail
    rw [run]
    by_cases hgoes : (b == falls) = true
    · exact ⟨_, bind_eq_ok_iff.mpr ⟨b, hb, by
        rw [if_pos hgoes]
        exact bind_eq_ok_iff.mpr ⟨r, hr, rfl⟩⟩⟩
    · exact ⟨_, bind_eq_ok_iff.mpr ⟨b, hb, if_neg hgoes⟩⟩

theorem exists_firstRun {xs : List α} (h : Comparable before xs) :
    ∃ r, firstRun before xs = .ok r := by
  match xs with
  | [] => exact ⟨_, rfl⟩
  | [x] => exact ⟨_, rfl⟩
  | x :: y :: zs =>
    obtain ⟨falls, hfalls⟩ := h y (by simp) x (by simp)
    obtain ⟨s, hs⟩ := exists_run falls h.tail
    exact ⟨_, firstRun_eq_ok_iff.mpr ⟨falls, s, hfalls, hs, rfl⟩⟩

theorem exists_place {x : α} {sorted : List α} (h : ∀ y ∈ sorted, ∃ b, before x y = .ok b)
    (low high : ℕ) : ∃ k, place before x sorted low high = .ok k := by
  induction hn : high - low using Nat.strong_induction_on generalizing low high with
  | _ n ih =>
    subst hn
    rw [place]
    by_cases hlt : low < high
    · rw [if_pos hlt]
      cases hy : sorted[low + (high - low) / 2]? with
      | none =>
        simp only [hy]
        exact ⟨low, rfl⟩
      | some y =>
        simp only [hy]
        obtain ⟨b, hb⟩ := h y (List.mem_of_getElem? hy)
        cases b with
        | true =>
          obtain ⟨k, hk⟩ := ih _ (by omega) low (low + (high - low) / 2) rfl
          exact ⟨k, bind_eq_ok_iff.mpr ⟨true, hb, hk⟩⟩
        | false =>
          obtain ⟨k, hk⟩ := ih _ (by omega) (low + (high - low) / 2 + 1) high rfl
          exact ⟨k, bind_eq_ok_iff.mpr ⟨false, hb, hk⟩⟩
    · rw [if_neg hlt]
      exact ⟨low, rfl⟩

theorem exists_insert {sorted rest : List α} (h : Comparable before (sorted ++ rest)) :
    ∃ ys, rest.foldlM (fun sorted x => do
      return sorted.insertIdx (← place before x sorted 0 sorted.length) x) sorted = .ok ys := by
  induction rest generalizing sorted with
  | nil => exact ⟨_, rfl⟩
  | cons x rest ih =>
    have hsorted : ∀ y ∈ sorted, ∃ b, before x y = .ok b :=
      fun y hy => h x (by simp) y (by simp [hy])
    obtain ⟨k, hk⟩ := exists_place hsorted 0 sorted.length
    have hx := List.perm_insertIdx x sorted (place_le x sorted (Nat.zero_le _) hk)
    have hnext := h.perm ((hx.append_right rest).trans List.perm_middle.symm)
    obtain ⟨ys, hys⟩ := ih hnext
    rw [List.foldlM_cons]
    exact ⟨ys, bind_eq_ok_iff.mpr ⟨_, bind_eq_ok_iff.mpr ⟨k, hk, rfl⟩, hys⟩⟩

theorem exists_sortBy {xs : List α} (h : Comparable before xs) :
    ∃ ys, sortBy before xs = .ok ys := by
  obtain ⟨r, hr⟩ := exists_firstRun h
  obtain ⟨ys, hys⟩ := exists_insert (h.perm (firstRun_perm hr))
  exact ⟨ys, bind_eq_ok_iff.mpr ⟨r, hr, hys⟩⟩

end Immittance.Order
