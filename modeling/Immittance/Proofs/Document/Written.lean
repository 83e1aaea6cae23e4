import Mathlib
import Immittance.Document.Value
import Immittance.Proofs.Results

/-!
# Values that can be written

A value can be written exactly if no whole number in it has too many digits, be it in a collection, as
a key or as an entry.
-/

set_option autoImplicit false

namespace Immittance.Value

variable {α : Type}

mutual

def wholes : Value α → List ℤ
  | int n => [n]
  | list vs | set vs => wholesAll vs
  | pairs es | map es => wholesEntries es
  | _ => []

def wholesAll : List (Value α) → List ℤ
  | [] => []
  | v :: vs => wholes v ++ wholesAll vs

def wholesEntries : List (Value α × Value α) → List ℤ
  | [] => []
  | (k, v) :: es => wholes k ++ wholes v ++ wholesEntries es

end

def Short (ns : List ℤ) : Prop := ∀ n ∈ ns, digitCount n.natAbs ≤ Text.longestWhole

theorem short_append {ns ks : List ℤ} : Short (ns ++ ks) ↔ Short ns ∧ Short ks :=
  List.forall_mem_append

theorem short_nil : Short [] := by simp [Short]

variable [Letter α]

theorem exists_wholeText_iff {n : ℤ} : (∃ s : List α, wholeText n = .ok s) ↔ Short [n] := by
  rw [wholeText, Short, List.forall_mem_singleton]
  split
  · next h => exact iff_of_false nofun (not_le.mpr h)
  · next h => exact iff_of_true ⟨_, rfl⟩ (not_lt.mp h)

mutual

theorem exists_shown_iff : (v : Value α) → ((∃ s, v.shown = .ok s) ↔ Short v.wholes)
  | null | bool _ | float _ | text _ | bytes _ | date _ | moment _ => by
    rw [wholes]
    · exact iff_of_true ⟨_, rfl⟩ short_nil
    all_goals exact nofun
  | int n => exists_wholeText_iff
  | list vs => by
    rw [shown, wholes, ← exists_shownAll_iff vs, exists_map_iff]
  | set vs => by
    rw [shown, wholes, ← exists_shownAll_iff vs, exists_map_iff]
  | pairs es => by
    rw [shown, wholes, ← exists_shownPairs_iff es, exists_map_iff]
  | map es => by
    rw [shown, wholes, ← exists_shownEntries_iff es, exists_map_iff]

theorem exists_shownAll_iff : (vs : List (Value α)) →
    ((∃ ss, shownAll vs = .ok ss) ↔ Short (wholesAll vs))
  | [] => iff_of_true ⟨_, rfl⟩ short_nil
  | v :: vs => by
    rw [shownAll, wholesAll, short_append, ← exists_shown_iff v, ← exists_shownAll_iff vs,
      exists_bind_iff]
    simp only [exists_map_iff, ← exists_and_right]

theorem exists_shownPairs_iff : (es : List (Value α × Value α)) →
    ((∃ ss, shownPairs es = .ok ss) ↔ Short (wholesEntries es))
  | [] => iff_of_true ⟨_, rfl⟩ short_nil
  | (k, v) :: es => by
    rw [shownPairs, wholesEntries, short_append, short_append, ← exists_shown_iff k,
      ← exists_shown_iff v, ← exists_shownPairs_iff es, exists_bind_iff]
    simp only [exists_bind_iff, exists_pure_iff, and_true, ← exists_and_right, and_assoc]

theorem exists_shownEntries_iff : (es : List (Value α × Value α)) →
    ((∃ ss, shownEntries es = .ok ss) ↔ Short (wholesEntries es))
  | [] => iff_of_true ⟨_, rfl⟩ short_nil
  | (k, v) :: es => by
    rw [shownEntries, wholesEntries, short_append, short_append, ← exists_shown_iff k,
      ← exists_shown_iff v, ← exists_shownEntries_iff es, exists_bind_iff]
    simp only [exists_bind_iff, exists_pure_iff, and_true, ← exists_and_right, and_assoc]

end

theorem exists_plain_iff (v : Value α) : (∃ s, v.plain = .ok s) ↔ Short v.wholes := by
  cases v with
  | text _ | date _ | moment _ => exact iff_of_true ⟨_, rfl⟩ short_nil
  | _ => exact exists_shown_iff _

end Immittance.Value
