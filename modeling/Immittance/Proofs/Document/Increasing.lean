import Mathlib
import Immittance.Proofs.Document.Sorting

/-!
# Sorting puts in order

Where the order of elements is that of their keys, the run in front rises, every further element finds
the place behind those whose keys are not larger, and the sorted list is in order.
-/

set_option autoImplicit false

namespace Immittance.Order

section
variable {ε α κ : Type} [LinearOrder κ] {before : α → α → Except ε Bool} {key : α → κ}

def ByKey (before : α → α → Except ε Bool) (key : α → κ) (xs : List α) : Prop :=
  ∀ x ∈ xs, ∀ y ∈ xs, before x y = .ok (decide (key x < key y))

theorem ByKey.perm {xs ys : List α} (h : ByKey before key xs) (hp : ys.Perm xs) :
    ByKey before key ys :=
  fun x hx y hy => h x (hp.subset hx) y (hp.subset hy)

theorem ByKey.tail {x : α} {xs : List α} (h : ByKey before key (x :: xs)) : ByKey before key xs :=
  fun y hy z hz => h y (List.mem_cons_of_mem x hy) z (List.mem_cons_of_mem x hz)

theorem ByKey.comparable {xs : List α} (h : ByKey before key xs) : Comparable before xs :=
  fun x hx y hy => ⟨_, h x hx y hy⟩

theorem ByKey.lt_iff {xs : List α} (h : ByKey before key xs) {x y : α} (hx : x ∈ xs) (hy : y ∈ xs)
    {b : Bool} (hb : before x y = .ok b) : b = true ↔ key x < key y := by
  rw [Except.ok.inj (hb.symm.trans (h x hx y hy)), decide_eq_true_eq]

def InOrder {β : Type} [Preorder β] (key : α → β) (xs : List α) : Prop :=
  xs.Pairwise fun x y => key x ≤ key y

theorem inOrder_cons {β : Type} [Preorder β] {key : α → β} {x y : α} {ys : List α}
    (hle : key x ≤ key y) (h : InOrder key (y :: ys)) : InOrder key (x :: y :: ys) :=
  List.pairwise_cons.mpr ⟨List.forall_mem_cons.mpr
    ⟨hle, fun _ hz => hle.trans (List.rel_of_pairwise_cons h hz)⟩, h⟩

theorem inOrder_run {falls : Bool} {x y : α} {ys : List α} (hlt : falls = true ↔ key y < key x)
    (h : if falls then InOrder (OrderDual.toDual ∘ key) (y :: ys) else InOrder key (y :: ys)) :
    if falls then InOrder (OrderDual.toDual ∘ key) (x :: y :: ys) else InOrder key (x :: y :: ys) := by
  cases falls with
  | true => exact inOrder_cons (OrderDual.toDual_le_toDual.mpr (hlt.mp rfl).le) h
  | false => exact inOrder_cons (not_lt.mp (hlt.not.mp Bool.false_ne_true)) h

/-- Along a run the keys do not fall, or do not rise if it is one that falls. -/
theorem run_inOrder {falls : Bool} {last : α} {xs : List α} {r : List α × List α}
    (hkey : ByKey before key (last :: xs)) (h : run before falls last xs = .ok r) :
    if falls then InOrder (OrderDual.toDual ∘ key) (last :: r.1) else InOrder key (last :: r.1) := by
  induction xs generalizing last r with
  | nil =>
    obtain rfl := Except.ok.inj h
    cases falls <;> exact List.pairwise_singleton _ _
  | cons x xs ih =>
    rw [run] at h
    obtain ⟨b, hb, h⟩ := bind_eq_ok_iff.mp h
    by_cases hgoes : (b == falls) = true
    · rw [if_pos hgoes] at h
      obtain ⟨s, hs, h⟩ := bind_eq_ok_iff.mp h
      obtain rfl := Except.ok.inj h
      obtain rfl := beq_iff_eq.mp hgoes
      exact inOrder_run (hkey.lt_iff (by simp) (by simp) hb) (ih hkey.tail hs)
    · rw [if_neg hgoes] at h
      obtain rfl := Except.ok.inj h
      cases falls <;> exact List.pairwise_singleton _ _

theorem firstRun_inOrder {xs : List α} {r : List α × List α} (hkey : ByKey before key xs)
    (h : firstRun before xs = .ok r) : InOrder key r.1 := by
  match xs with
  | [] =>
    obtain rfl := Except.ok.inj h
    exact List.Pairwise.nil
  | [x] =>
    obtain rfl := Except.ok.inj h
    exact List.pairwise_singleton _ _
  | x :: y :: zs =>
    obtain ⟨falls, s, hfalls, hs, rfl⟩ := firstRun_eq_ok_iff.mp h
    have hrun := inOrder_run (hkey.lt_iff (by simp) (by simp) hfalls) (run_inOrder hkey.tail hs)
    cases falls with
    | true => exact List.pairwise_reverse.mpr hrun
    | false => exact hrun

/-- A place between two bounds that has no larger key in front of it and only larger ones from it on,
if that holds of the lower and of the upper bound. -/
theorem place_between {x : α} {sorted : List α} (hsorted : InOrder key sorted)
    (hx : ∀ y ∈ sorted, before x y = .ok (decide (key x < key y))) {low high k : ℕ}
    (hlow : ∀ i (hi : i < sorted.length), i < low → key sorted[i] ≤ key x)
    (hhigh : ∀ i (hi : i < sorted.length), high ≤ i → key x < key sorted[i])
    (hle : low ≤ high) (hlen : high ≤ sorted.length)
    (h : place before x sorted low high = .ok k) :
    (∀ i (hi : i < sorted.length), i < k → key sorted[i] ≤ key x) ∧
      ∀ i (hi : i < sorted.length), k ≤ i → key x < key sorted[i] := by
  induction hn : high - low using Nat.strong_induction_on generalizing low high with
  | _ n ih =>
    subst hn
    rw [place] at h
    by_cases hlt : low < high
    · have hmiddle : low + (high - low) / 2 < sorted.length := by omega
      rw [if_pos hlt] at h
      simp only [List.getElem?_eq_getElem hmiddle] at h
      have hmono := List.pairwise_iff_getElem.mp hsorted
      obtain ⟨b, hb, h⟩ := bind_eq_ok_iff.mp h
      rw [hx _ (List.getElem_mem hmiddle)] at hb
      obtain rfl := Except.ok.inj hb
      by_cases hkey : key x < key sorted[low + (high - low) / 2]
      · rw [decide_eq_true hkey] at h
        refine ih _ (by omega) hlow (fun i hi hge => ?_) (by omega) (by omega) h rfl
        rcases hge.eq_or_lt with rfl | hgt
        · exact hkey
        · exact hkey.trans_le (hmono _ _ _ _ hgt)
      · rw [decide_eq_false hkey] at h
        refine ih _ (by omega) (fun i hi hlt => ?_) hhigh (by omega) hlen h rfl
        rcases (Nat.lt_succ_iff.mp hlt).eq_or_lt with rfl | hlt
        · exact not_lt.mp hkey
        · exact (hmono _ _ _ _ hlt).trans (not_lt.mp hkey)
    · rw [if_neg hlt] at h
      obtain rfl := Except.ok.inj h
      obtain rfl : low = high := by omega
      exact ⟨hlow, hhigh⟩

theorem pairwise_insertIdx {R : α → α → Prop} {x : α} {xs : List α} {k : ℕ} (h : xs.Pairwise R)
    (hbelow : ∀ i (hi : i < xs.length), i < k → R xs[i] x)
    (habove : ∀ i (hi : i < xs.length), k ≤ i → R x xs[i]) : (xs.insertIdx k x).Pairwise R := by
  induction xs generalizing k with
  | nil => cases k <;> simp
  | cons y ys ih =>
    cases k with
    | zero =>
      refine List.pairwise_cons.mpr ⟨fun z hz => ?_, h⟩
      obtain ⟨i, hi, rfl⟩ := List.getElem_of_mem hz
      exact habove i hi (Nat.zero_le i)
    | succ k =>
      obtain ⟨hy, hys⟩ := List.pairwise_cons.mp h
      refine List.pairwise_cons.mpr ⟨fun z hz => ?_, ih hys
        (fun i hi hlt => hbelow (i + 1) (by simpa using hi) (by omega))
        (fun i hi hge => habove (i + 1) (by simpa using hi) (by omega))⟩
      rcases List.eq_or_mem_of_mem_insertIdx hz with rfl | hz
      · exact hbelow 0 (by simp) (by omega)
      · exact hy z hz

theorem insert_inOrder {sorted rest ys : List α} (hkey : ByKey before key (sorted ++ rest))
    (hsorted : InOrder key sorted)
    (h : rest.foldlM (fun sorted x => do
      return sorted.insertIdx (← place before x sorted 0 sorted.length) x) sorted = .ok ys) :
    InOrder key ys := by
  induction rest generalizing sorted with
  | nil =>
    obtain rfl := Except.ok.inj h
    exact hsorted
  | cons x rest ih =>
    rw [List.foldlM_cons] at h
    obtain ⟨next, hnext, h⟩ := bind_eq_ok_iff.mp h
    obtain ⟨k, hk, hnext⟩ := bind_eq_ok_iff.mp hnext
    obtain rfl := Except.ok.inj hnext
    have hperm := List.perm_insertIdx x sorted (place_le x sorted (Nat.zero_le _) hk)
    obtain ⟨hbelow, habove⟩ := place_between hsorted
      (fun y hy => hkey x (by simp) y (by simp [hy])) (by omega) (by omega) (Nat.zero_le _) le_rfl hk
    refine ih (hkey.perm ((hperm.append_right rest).trans List.perm_middle.symm)) ?_ h
    exact pairwise_insertIdx hsorted hbelow fun i hi hge => (habove i hi hge).le

theorem sortBy_inOrder {xs ys : List α} (hkey : ByKey before key xs)
    (h : sortBy before xs = .ok ys) : InOrder key ys := by
  obtain ⟨r, hr, h⟩ := bind_eq_ok_iff.mp h
  exact insert_inOrder (hkey.perm (firstRun_perm hr)) (firstRun_inOrder hkey hr) h

end

end Immittance.Order
