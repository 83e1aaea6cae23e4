import Mathlib
import Immittance.History
import Immittance.Proofs.Description.Recursion
import Immittance.Proofs.Description.Value
import Immittance.Proofs.Circuit.Parts

/-!
# Reading descriptions

The body of a group's description has no comma at level zero but those between members, so it is
taken apart as the body of an expression is. Level by level a description tells the circuit it is of.
-/

set_option autoImplicit false

namespace Immittance

open Text Expression

/-! ## Members of a body -/

namespace Circuit

theorem joined_blank (p : List Char) (ps : List (List Char)) :
    joined ((' ' :: p) :: ps) = ' ' :: joined (p :: ps) := by
  cases ps with
  | nil => simp
  | cons q ps => simp

theorem body_eq_joined (c : Circuit Float) (cs : List (Circuit Float)) :
    body (c :: cs) = joined (c.describe :: cs.map fun d => ' ' :: d.describe) := by
  induction cs generalizing c with
  | nil => simp
  | cons d cs ih => rw [body_cons_cons, ih, List.map_cons, joined_cons_cons, joined_blank]

theorem closed_blank {s : List Char} (h : Closed s) : Closed (' ' :: s) := by
  have hnesting : nesting ' ' = 0 := rfl
  constructor
  · apply closes_cons.mpr
    rw [hnesting]
    exact ⟨le_rfl, h.1⟩
  · apply uncut_cons.mpr
    rw [hnesting]
    exact ⟨by simp, h.2⟩

theorem closed_of_mem {c : Circuit Float} {cs : List (Circuit Float)}
    (h : ∀ d ∈ c :: cs, Closed d.describe) :
    ∀ p ∈ c.describe :: cs.map (fun d => ' ' :: d.describe), Closed p := by
  intro p hp
  rcases List.mem_cons.mp hp with rfl | hp
  · exact h c (by simp)
  · obtain ⟨d, hd, rfl⟩ := List.mem_map.mp hp
    exact closed_blank (h d (by simp [hd]))

theorem closes_body {cs : List (Circuit Float)} (h : ∀ c ∈ cs, Closed c.describe) :
    Closes 0 (body cs) := by
  cases cs with
  | nil => exact closes_nil.mpr rfl
  | cons c cs =>
    rw [body_eq_joined]
    exact closes_joined fun p hp => (closed_of_mem h p hp).1

/-- The description of a circuit can stand between commas. -/
theorem closed_describe (c : Circuit Float) : Closed c.describe := by
  have hnil : Plain [] := plain_of_blank blank_nil
  induction c using Circuit.by_members with
  | part p =>
    have hvalue := closed_of_plain (plain_shortestText p.value)
    have hpart := closed_group (spells_letter p.kind).plain hvalue.1 hnil
    rw [describe_part]
    exact hpart
  | group w cs ih =>
    rw [describe_group]
    exact closed_group (plain_of_isKeyword (isKeyword_word w)) (closes_body ih) hnil

/-- A description begins and ends without blanks. -/
theorem describe_ends (c : Circuit Float) :
    ∃ a s, c.describe = a :: (s ++ [')']) ∧ isBlank a = false := by
  cases c with
  | part p =>
    refine ⟨p.kind.letter, '(' :: shortestText p.value, describe_part p, ?_⟩
    cases p.kind <;> decide
  | group w cs =>
    rw [describe_group]
    cases w with
    | series => exact ⟨'s', ['e', 'r', 'i', 'e', 's', '('] ++ body cs, by simp [Wiring.word], by decide⟩
    | parallel =>
      exact ⟨'p', ['a', 'r', 'a', 'l', 'l', 'e', 'l', '('] ++ body cs, by simp [Wiring.word],
        by decide⟩

theorem trim_describe (c : Circuit Float) : trim c.describe = c.describe := by
  obtain ⟨a, s, hs, ha⟩ := describe_ends c
  have hclose : trimEnd (s ++ [')']) = s ++ [')'] := trimEnd_append_cons s [] (by decide)
  rw [hs]
  exact (trim_append_cons [] (s ++ [')']) ha).trans (by rw [hclose]; rfl)

theorem not_blank_describe (c : Circuit Float) : ¬Blank c.describe := by
  obtain ⟨a, s, hs, ha⟩ := describe_ends c
  intro h
  rw [h a (by simp [hs])] at ha
  exact absurd ha (by decide)

/-- The body of a group is taken apart into the descriptions of its members. -/
theorem splitTopLevel_body (cs : List (Circuit Float)) :
    splitTopLevel (body cs) = cs.map describe := by
  cases cs with
  | nil => exact splitTopLevel_of_blank blank_nil
  | cons c cs =>
    have hclosed := closed_of_mem fun d (_ : d ∈ c :: cs) => closed_describe d
    have hwhole : ∀ p ∈ c.describe :: cs.map (fun d => ' ' :: d.describe),
        Balanced p ∧ Whole p ∧ ¬Blank p := by
      intro p hp
      refine ⟨balanced_iff_closes.mpr (hclosed p hp).1, whole_iff_uncut.mpr (hclosed p hp).2, ?_⟩
      rcases List.mem_cons.mp hp with rfl | hp
      · exact not_blank_describe c
      · obtain ⟨d, -, rfl⟩ := List.mem_map.mp hp
        exact fun h => not_blank_describe d fun x hx => h x (by simp [hx])
    have hblank : ∀ d : Circuit Float, trim (' ' :: d.describe) = d.describe := fun d =>
      (trim_blank_append blank_space d.describe).trans (trim_describe d)
    rw [body_eq_joined, splitTopLevel_joined (by simp) (Or.inl rfl) hwhole]
    simp [trim_describe, hblank]

/-! ## One circuit for each description -/

theorem letter_injective : Function.Injective Kind.letter := by
  intro k l h
  revert h
  cases k <;> cases l <;> decide

theorem eq_of_map_eq {β : Type} {g : Circuit Float → β} {cs ds : List (Circuit Float)}
    (h : ∀ c ∈ cs, ∀ d, g c = g d → c = d) (hmap : cs.map g = ds.map g) : cs = ds := by
  induction cs generalizing ds with
  | nil => exact (List.map_eq_nil_iff.mp hmap.symm).symm
  | cons c cs ih =>
    cases ds with
    | nil => cases hmap
    | cons d ds =>
      obtain ⟨hhead, htail⟩ := List.cons.inj hmap
      rw [h c (by simp) d hhead, ih (fun e he => h e (by simp [he])) htail]

theorem part_eq_of_describe {p q : Part Float}
    (h : (Circuit.part p).describe = (Circuit.part q).describe) : p = q := by
  rw [describe_part, describe_part] at h
  obtain ⟨hletter, hrest⟩ := List.cons.inj h
  have htext := List.append_cancel_right (List.cons.inj hrest).2
  cases p
  cases q
  exact congrArg₂ Part.mk (letter_injective hletter) (shortestText_injective htext)

theorem group_body_of_describe {w v : Wiring} {cs ds : List (Circuit Float)}
    (h : (Circuit.group w cs).describe = (Circuit.group v ds).describe) :
    w = v ∧ body cs = body ds := by
  rw [describe_group, describe_group] at h
  have hw : w = v := by
    cases w <;> cases v
    · rfl
    · cases h
    · cases h
    · rfl
  subst hw
  have hrest := (List.cons.inj (List.append_cancel_left h)).2
  exact ⟨rfl, List.append_cancel_right hrest⟩

theorem describe_part_ne_group (p : Part Float) (w : Wiring) (cs : List (Circuit Float)) :
    (Circuit.part p).describe ≠ (Circuit.group w cs).describe := by
  intro h
  rw [describe_part, describe_group] at h
  have hhead := congrArg List.head? h
  revert hhead
  cases w <;> cases hk : p.kind <;> simp [Part.describe, hk, Kind.letter, Wiring.word]

theorem describe_injective : Function.Injective (describe : Circuit Float → List Char) := by
  intro c
  induction c using Circuit.by_members with
  | part p =>
    intro d h
    cases d with
    | part q => rw [part_eq_of_describe h]
    | group v ds => exact absurd h (describe_part_ne_group p v ds)
  | group w cs ih =>
    intro d h
    cases d with
    | part q => exact absurd h.symm (describe_part_ne_group q w cs)
    | group v ds =>
      obtain ⟨rfl, hbody⟩ := group_body_of_describe h
      -- equal bodies are taken apart into equal descriptions, member by member
      have hmap : cs.map describe = ds.map describe := by
        rw [← splitTopLevel_body, hbody, splitTopLevel_body]
      rw [eq_of_map_eq (fun c hc d hd => ih c hc hd) hmap]

end Circuit

/-- A group is described by its wiring and a body that is taken apart into the descriptions of its
members. A description belongs to one circuit, its doubles told by their texts, so calculations with
one expression have the same parts. -/
theorem describe_unique :
    (∀ (w : Wiring) (cs : List (Circuit Float)), ∃ body,
      (Circuit.group w cs).describe = w.word ++ '(' :: (body ++ [')']) ∧
      splitTopLevel body = cs.map Circuit.describe) ∧
    (∀ c d : Circuit Float, c.describe = d.describe ↔ c = d) ∧
    ∀ (e e' : Entry) (name name' : List Char),
      (e.named name).expression = (e'.named name').expression →
      (e.named name).parts = (e'.named name').parts := by
  refine ⟨?taken_apart, ?told, ?parts⟩
  case taken_apart =>
    intro w cs
    exact ⟨Circuit.body cs, Circuit.describe_group w cs, Circuit.splitTopLevel_body cs⟩
  case told =>
    intro c d
    exact Circuit.describe_injective.eq_iff
  case parts =>
    intro e e' name name' h
    have hcircuit : e.circuit = e'.circuit := Circuit.describe_injective h
    show e.circuit.parts = e'.circuit.parts
    rw [hcircuit]

theorem describe_unique_series :
    let c := Circuit.group .series
      [.part ⟨.resistor, (1 : Float)⟩, .group .parallel [], .part ⟨.capacitor, (0 / 0 : Float)⟩]
    let e : Entry := ⟨c, 50, ⟨1, 0⟩⟩
    let e' : Entry := ⟨c, 60, ⟨2, 0⟩⟩
    (e.named ['a']).expression = (e'.named ['b']).expression ∧
    (e.named ['a']).parts = (e'.named ['b']).parts := by
  intro c e e'
  have h : (e.named ['a']).expression = (e'.named ['b']).expression := rfl
  exact ⟨h, describe_unique.2.2 e e' ['a'] ['b'] h⟩

end Immittance
