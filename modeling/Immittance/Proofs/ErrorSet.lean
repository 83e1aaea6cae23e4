import Mathlib
import Immittance.Proofs.Expression.Origin
import Immittance.Proofs.Expression.Strict
import Immittance.Proofs.Impedance.Strict

/-!
# The errors there are

Reading an expression ends in a circuit or in an error that shows the text at fault, and evaluating a
circuit ends in a phasor or in a fault of one of its circuits. Both are said of the strict forms, in
which every check that could fail is made. Calls may go as deep as expressions and circuits are
nested: running out of stack is not among the errors.
-/

set_option autoImplicit false

namespace Immittance

open Expression

theorem issue_ne_unknownSpec {i : Issue} {input text : List Char} (h : i.Blames input text) :
    i ≠ .tokenUnknownSpec := by
  cases h <;> simp

theorem ofFault_cases {α : Type} (e : Fault α) :
    Halt.ofFault e = .invalid e.cause.message e.place e.frequency ∨
      Halt.ofFault e = .computation e.cause.message e.place e.frequency := by
  rw [Halt.ofFault]
  split
  · exact Or.inr rfl
  · exact Or.inl rfl

/-- A strict reading stops only with the error of an expression, which is never that of an unknown
specification and whose details are the filled template; a strict evaluation stops only with a fault. -/
theorem errors_closed :
    (∀ s : List Char,
      (∃ c, strictParse s = .ok c ∧ parse s = .ok c) ∨
      ∃ e, strictParse s = .error (.issue e) ∧ parse s = .error e ∧
        e.issue ≠ .tokenUnknownSpec ∧
        (∃ text, e.issue.Blames e.input text ∧ e.details = e.issue.template.filled text) ∧
        ∀ name args, e.details ≠ e.issue.missing name args) ∧
    (∀ (c : Circuit Float) (f : Float),
      (∃ z, c.strict f = .ok z ∧ c.impedance f = .ok z) ∨
      ∃ e, c.impedance f = .error e ∧
        (c.strict f = .error (.invalid e.cause.message e.place e.frequency) ∨
          c.strict f = .error (.computation e.cause.message e.place e.frequency))) := by
  constructor
  · intro s
    rw [strictParse_eq]
    cases h : parse s with
    | ok c => exact Or.inl ⟨c, rfl, rfl⟩
    | error e =>
      obtain ⟨text, hb, hd⟩ := parse_error h
      refine Or.inr ⟨e, rfl, rfl, issue_ne_unknownSpec hb, ⟨text, hb, hd⟩, fun name args => ?_⟩
      rw [hd]
      exact filled_ne_missing e.issue text name args
  · intro c f
    rw [strict_eq]
    cases h : c.impedance f with
    | ok z => exact Or.inl ⟨z, rfl, rfl⟩
    | error e =>
      refine Or.inr ⟨e, rfl, ?_⟩
      rcases ofFault_cases e with k | k
      · exact Or.inl (congrArg Except.error k)
      · exact Or.inr (congrArg Except.error k)

end Immittance
