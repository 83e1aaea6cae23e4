import Mathlib
import Immittance.Circuit

/-!
# The members and the parts of a circuit

What holds of the parts and passes from members to their group holds of every circuit. The parts that
are found with a list of waiting circuits are those of the circuits in order, so the parts of a group
are those of its members.
-/

set_option autoImplicit false

namespace Immittance.Circuit

variable {α : Type}

/-! ## Induction over members -/

theorem size_le_of_mem {c : Circuit α} {cs : List (Circuit α)} (h : c ∈ cs) :
    c.size ≤ sizes cs := by
  induction cs with
  | nil => cases h
  | cons d ds ih =>
    rw [sizes]
    rcases List.mem_cons.mp h with rfl | h
    · omega
    · have := ih h
      omega

theorem by_members {motive : Circuit α → Prop} (part : ∀ p, motive (.part p))
    (group : ∀ w cs, (∀ c ∈ cs, motive c) → motive (.group w cs)) : ∀ c, motive c
  | .part p => part p
  | .group w cs => group w cs fun c hc =>
      have : c.size < (Circuit.group w cs).size := by
        have := size_le_of_mem hc
        rw [size]
        omega
      by_members part group c
termination_by c => c.size

/-! ## The parts from left to right -/

theorem partsFrom_append (found : List (Part α)) (cs ds : List (Circuit α)) :
    partsFrom found (cs ++ ds) = partsFrom (partsFrom found cs).reverse ds := by
  induction found, cs using partsFrom.induct with
  | case1 found => simp [partsFrom]
  | case2 found p rest ih => rw [List.cons_append, partsFrom, partsFrom, ih]
  | case3 found w members rest ih =>
    rw [List.cons_append, partsFrom, partsFrom, ← List.append_assoc, ih]

theorem partsFrom_found (found earlier : List (Part α)) (cs : List (Circuit α)) :
    partsFrom (found ++ earlier) cs = earlier.reverse ++ partsFrom found cs := by
  induction found, cs using partsFrom.induct with
  | case1 found => simp [partsFrom]
  | case2 found p rest ih =>
    rw [partsFrom, partsFrom]
    exact ih
  | case3 found w members rest ih => rw [partsFrom, partsFrom, ih]

theorem parts_part (p : Part α) : (Circuit.part p).parts = [p] := by
  simp [parts, partsFrom]

theorem partsFrom_cons (c : Circuit α) (cs : List (Circuit α)) :
    partsFrom [] (c :: cs) = c.parts ++ partsFrom [] cs := by
  have h := partsFrom_append [] [c] cs
  rw [List.singleton_append] at h
  have k := partsFrom_found [] (partsFrom [] [c]).reverse cs
  rw [List.nil_append, List.reverse_reverse] at k
  rw [h, k, parts]

theorem parts_group (w : Wiring) (cs : List (Circuit α)) :
    (Circuit.group w cs).parts = cs.flatMap parts := by
  have h : (Circuit.group w cs).parts = partsFrom [] cs := by
    rw [parts, partsFrom, List.append_nil]
  rw [h]
  clear h
  induction cs with
  | nil => rw [partsFrom]; rfl
  | cons c cs ih => rw [partsFrom_cons, ih, List.flatMap_cons]

end Immittance.Circuit
