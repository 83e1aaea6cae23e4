import Mathlib
import Immittance.Calculation.Finding
import Immittance.Proofs.Document.Ordered
import Immittance.Proofs.Document.Written

/-!
# Findings that can be written

Findings are written field by field, sorted by field. This comes to a text exactly if the fields, where
there are several, are of one rank and no whole number in the findings is too long: in a field, in a
field inside of a value, or among the names that are complained about.
-/

set_option autoImplicit false

namespace Immittance

variable {α : Type}

open Value

/-! ## Numbers in findings -/

def Complaint.wholes : Complaint α → List ℤ
  | duplicates names => wholesAll names
  | _ => []

namespace Finding

mutual

def wholes : Finding α → List ℤ
  | complaint c => c.wholes
  | inside fields => wholesFields fields

def wholesEach : List (Finding α) → List ℤ
  | [] => []
  | f :: fs => wholes f ++ wholesEach fs

def wholesFields : List (Value α × List (Finding α)) → List ℤ
  | [] => []
  | (key, fs) :: rest => key.wholes ++ wholesEach fs ++ wholesFields rest

end

theorem short_wholesFields_iff {found : Findings α} :
    Short (wholesFields found) ↔ ∀ f ∈ found, Short f.1.wholes ∧ Short (wholesEach f.2) := by
  induction found with
  | nil => exact iff_of_true short_nil (by simp)
  | cons f found ih =>
    rw [wholesFields, short_append, short_append, List.forall_mem_cons, ih]

end Finding

/-! ## Texts of findings -/

variable [Letter α]

theorem Complaint.exists_message_iff {c : Complaint α} :
    (∃ s, c.message = .ok s) ↔ Short c.wholes := by
  cases c with
  | duplicates names =>
    rw [message, exists_map_iff]
    exact exists_shown_iff (.list names)
  | _ => exact iff_of_true ⟨_, rfl⟩ short_nil

namespace Finding

mutual

theorem exists_shown_iff : (f : Finding α) → ((∃ s, f.shown = .ok s) ↔ Short f.wholes)
  | complaint c => by
    rw [shown, wholes, exists_map_iff]
    exact Complaint.exists_message_iff
  | inside fields => by
    rw [shown, wholes, exists_map_iff]
    exact exists_shownFields_iff fields

theorem exists_shownAll_iff : (fs : List (Finding α)) →
    ((∃ ss, shownAll fs = .ok ss) ↔ Short (wholesEach fs))
  | [] => iff_of_true ⟨_, rfl⟩ short_nil
  | f :: fs => by
    rw [shownAll, wholesEach, short_append, ← exists_shown_iff f, ← exists_shownAll_iff fs,
      exists_bind_iff]
    simp only [exists_map_iff, ← exists_and_right]

theorem exists_shownFields_iff : (fields : List (Value α × List (Finding α))) →
    ((∃ ss, shownFields fields = .ok ss) ↔ Short (wholesFields fields))
  | [] => iff_of_true ⟨_, rfl⟩ short_nil
  | (key, fs) :: rest => by
    rw [shownFields, wholesFields, short_append, short_append, ← Value.exists_shown_iff key,
      ← exists_shownAll_iff fs, ← exists_shownFields_iff rest, exists_bind_iff]
    simp only [exists_bind_iff, exists_pure_iff, and_true, ← exists_and_right, and_assoc]

end

end Finding

namespace Findings

def OfOneRank (found : Findings α) : Prop :=
  found.length ≤ 1 ∨ ∃ k, ∀ f ∈ found, f.1.rank? = some k

theorem exists_sorted_iff {found : Findings α} :
    (∃ fs, found.sorted = .ok fs) ↔ found.OfOneRank := by
  have hrank : ∀ x y : Value α × List (Finding α), (∃ b, x.1.before y.1 = .ok b) ↔
      ∃ k, x.1.rank? = some k ∧ y.1.rank? = some k := fun x y => Value.exists_before_iff x.1 y.1
  exact Order.exists_sortBy_iff hrank

theorem exists_line_iff {opening : String} {f : Value α × List (Finding α)} :
    (∃ s, line opening f = .ok s) ↔ Short f.1.wholes ∧ Short (Finding.wholesEach f.2) := by
  rw [line, exists_bind_iff, ← exists_plain_iff, ← Finding.exists_shownAll_iff]
  simp only [exists_map_iff, Finding.listed, ← exists_and_right]

structure Showable (found : Findings α) : Prop where
  ofOneRank : found.OfOneRank
  short : Short (Finding.wholesFields found)

theorem exists_text_iff (opening : String) {found : Findings α} :
    (∃ s, found.text opening = .ok s) ↔ found.Showable := by
  rw [text, exists_bind_iff]
  simp only [exists_map_iff, mapM_eq_ok_iff, exists_forall₂_iff, exists_line_iff]
  constructor
  · rintro ⟨fs, hfs, hlines⟩
    constructor
    case ofOneRank => exact exists_sorted_iff.mp ⟨fs, hfs⟩
    case short =>
      exact Finding.short_wholesFields_iff.mpr fun f hf =>
        hlines f ((Order.sortBy_perm hfs).mem_iff.mpr hf)
  · rintro ⟨hrank, hshort⟩
    obtain ⟨fs, hfs⟩ := exists_sorted_iff.mpr hrank
    exact ⟨fs, hfs, fun f hf =>
      Finding.short_wholesFields_iff.mp hshort f ((Order.sortBy_perm hfs).mem_iff.mp hf)⟩

end Findings

end Immittance
