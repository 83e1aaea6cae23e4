import Mathlib
import Immittance.Proofs.Description.Unique
import Immittance.Proofs.Expression.Reading

/-!
# Descriptions as expressions

The description of a group is an expression with the descriptions of its members in it. That of a part
is none: its letter stands where a wiring has to. So a description is read back exactly if the circuit
has no parts, and otherwise the first of them is at fault. Describing needs no depth of calls, reading as
much of it as the description is nested, without a limit.
-/

set_option autoImplicit false

namespace Immittance

open Text Expression

/-- What is wrong with the description of a part as an expression: its letter, in lower case, is taken
for the name of a wiring. -/
def Part.misread (p : Part Float) : ParseError :=
  ⟨.groupUnknownConnection, "Unknown connection type: ".toList ++ [p.kind.letter.toLower], p.describe⟩

/-! ## The shapes of descriptions -/

theorem shape_describe_part (p : Part Float) : Shape.of p.describe = .error p.misread := by
  have hvalue : splitClose 0 (shortestText p.value ++ [')']) = some (shortestText p.value, []) :=
    splitClose_eq_some_iff.mpr ⟨(closed_of_plain (plain_shortestText p.value)).1, rfl⟩
  have hname : lower (trim [p.kind.letter]) = [p.kind.letter.toLower] := by
    cases p.kind <;> rfl
  have hwiring : Wiring.ofName? [p.kind.letter.toLower] = none := by
    cases p.kind <;> rfl
  have htrim : trim p.describe = p.describe := by
    rw [← Circuit.describe_part, Circuit.trim_describe]
  have hshape := shape_eq_error_iff (spells_letter p.kind).plain.1
    (t := shortestText p.value ++ [')']) (e := p.misread)
  refine hshape.mpr (Or.inr ⟨_, [], hvalue, Or.inr ⟨blank_nil, ?_, ?_⟩⟩)
  · rw [hname, hwiring]
  · show _ = Issue.groupUnknownConnection.error (trim p.describe) _
    rw [hname, htrim]
    rfl

theorem shape_describe_group (w : Wiring) (cs : List (Circuit Float)) :
    Shape.of (Circuit.group w cs).describe = .ok (.group w (cs.map Circuit.describe)) := by
  have hword : w.word <+: lower (trim w.word) := by
    cases w <;> exact List.prefix_rfl
  have hbody := Circuit.closes_body fun c (_ : c ∈ cs) => Circuit.closed_describe c
  refine shape_eq_group_iff.mpr ⟨w.word, Circuit.body cs, [], Circuit.describe_group w cs,
    (plain_of_isKeyword (isKeyword_word w)).1, hword, balanced_iff_closes.mpr hbody, blank_nil, ?_⟩
  rw [Circuit.splitTopLevel_body]

/-! ## Reading back -/

def readBack {α : Type} (c : α) : List (Part Float) → Except ParseError α
  | [] => .ok c
  | p :: _ => .error p.misread

/-- Members are read back up to the first that has a part. -/
theorem mapM_readBack {cs : List (Circuit Float)}
    (h : ∀ c ∈ cs, parse c.describe = readBack c c.parts) :
    (cs.map Circuit.describe).mapM parse = readBack cs (cs.flatMap Circuit.parts) := by
  induction cs with
  | nil => rfl
  | cons c cs ih =>
    have hrest := ih fun d hd => h d (List.mem_cons_of_mem _ hd)
    rw [List.map_cons, List.mapM_cons, h c (by simp), hrest, List.flatMap_cons]
    cases c.parts with
    | cons p ps => rfl
    | nil =>
      rw [List.nil_append]
      cases cs.flatMap Circuit.parts <;> rfl

theorem parse_readBack (c : Circuit Float) : parse c.describe = readBack c c.parts := by
  induction c using Circuit.by_members with
  | part p =>
    rw [Circuit.describe_part, parse_of_error (shape_describe_part p), Circuit.parts_part]
    rfl
  | group w cs ih =>
    rw [parse_of_group (shape_describe_group w cs), mapM_readBack ih, Circuit.parts_group]
    cases cs.flatMap Circuit.parts <;> rfl

/-- The description of a circuit without parts is read as the circuit; that of any other fails at its
first part, whose letter is no wiring. So a calculation's expression can be asked for again only if the
calculation lists no parts: a request for it fails at the first part that it lists. -/
theorem parse_describe (c : Circuit Float) :
    (parse c.describe =
      match c.parts with
      | [] => .ok c
      | p :: _ => .error p.misread) ∧
    ∀ (name : List Char) (f : Float) (z : Phasor Float) (r : Request),
      let calculation := Entry.named name ⟨c, f, z⟩
      let again := { r with expression := calculation.expression }
      ((∃ d, parse again.expression = .ok d) ↔ calculation.parts = []) ∧
      again.entry =
        match calculation.parts with
        | [] => Entry.evaluate (.circuit c) r.frequency
        | p :: _ => .error (.expression p.misread) := by
  have hread := parse_readBack c
  refine ⟨?reads, fun name f z r => ?again⟩
  case reads =>
    rw [hread]
    cases c.parts <;> rfl
  case again =>
    intro calculation again
    have hentry : again.entry =
        (parse c.describe).mapError .expression >>= fun d => Entry.evaluate (.circuit d) r.frequency :=
      rfl
    have hexpression : parse again.expression = readBack c c.parts := hread
    have hparts : calculation.parts = c.parts := rfl
    rw [hexpression, hentry, hread, hparts]
    cases c.parts with
    | nil => exact ⟨⟨fun _ => rfl, fun _ => ⟨c, rfl⟩⟩, rfl⟩
    | cons p ps =>
      refine ⟨⟨?_, ?_⟩, rfl⟩
      · rintro ⟨d, hd⟩
        cases hd
      · intro h
        cases h

end Immittance
