import Mathlib
import Immittance.Description

/-!
# Descriptions by recursion

What waits to be written is written piece by piece behind what has been written, so the description
of a group is its wiring around the descriptions of its members.
-/

set_option autoImplicit false

namespace Immittance.Circuit

/-- What was written earlier stays in front. -/
theorem describeFrom_done (done earlier : List (List Char)) (waiting : List Pending) :
    describeFrom (done ++ earlier) waiting =
      earlier.reverse.flatten ++ describeFrom done waiting := by
  induction done, waiting using describeFrom.induct with
  | case1 done => simp [describeFrom]
  | case2 done t rest ih =>
    rw [describeFrom, describeFrom]
    exact ih
  | case3 done p rest ih =>
    rw [describeFrom, describeFrom]
    exact ih
  | case4 done w members rest ih => rw [describeFrom, describeFrom, ih]

theorem describeFrom_append (done : List (List Char)) (xs ys : List Pending) :
    describeFrom done (xs ++ ys) = describeFrom done xs ++ describeFrom [] ys := by
  induction done, xs using describeFrom.induct with
  | case1 done => simpa [describeFrom] using describeFrom_done [] done ys
  | case2 done t rest ih => rw [List.cons_append, describeFrom, describeFrom, ih]
  | case3 done p rest ih => rw [List.cons_append, describeFrom, describeFrom, ih]
  | case4 done w members rest ih =>
    rw [List.cons_append, describeFrom, describeFrom, ← List.append_assoc, ih]

theorem describeFrom_text (t : List Char) (waiting : List Pending) :
    describeFrom [] (.text t :: waiting) = t ++ describeFrom [] waiting := by
  rw [describeFrom, ← List.nil_append [t], describeFrom_done]
  simp

theorem describeFrom_circuit (c : Circuit Float) (waiting : List Pending) :
    describeFrom [] (.circuit c :: waiting) = c.describe ++ describeFrom [] waiting :=
  describeFrom_append [] [.circuit c] waiting

theorem describe_part (p : Part Float) : (Circuit.part p).describe = p.describe := by
  simp [describe, describeFrom]

def body (cs : List (Circuit Float)) : List Char := [',', ' '].intercalate (cs.map describe)

@[simp] theorem body_nil : body [] = [] := rfl

@[simp] theorem body_singleton (c : Circuit Float) : body [c] = c.describe := by
  simp [body]

@[simp] theorem body_cons_cons (c d : Circuit Float) (cs : List (Circuit Float)) :
    body (c :: d :: cs) = c.describe ++ ',' :: ' ' :: body (d :: cs) := by
  simp [body, List.intercalate]

theorem describeFrom_separated (cs : List (Circuit Float)) :
    describeFrom [] (Pending.separated cs) = body cs := by
  induction cs with
  | nil => simp [Pending.separated, describeFrom]
  | cons c cs ih =>
    cases cs with
    | nil => simp [Pending.separated, describeFrom_circuit, describeFrom]
    | cons d cs =>
      rw [Pending.separated, describeFrom_circuit, describeFrom_text, ih, body_cons_cons]
      rfl

theorem describe_group (w : Wiring) (cs : List (Circuit Float)) :
    (Circuit.group w cs).describe = w.word ++ '(' :: (body cs ++ [')']) := by
  have hopened : (Circuit.group w cs).describe = describeFrom [] (Pending.opened w cs) := by
    rw [describe, describeFrom, List.append_nil]
  rw [hopened, Pending.opened, List.cons_append, describeFrom_text, describeFrom_append,
    describeFrom_separated, describeFrom_text]
  simp [describeFrom]

end Immittance.Circuit
