import Mathlib
import Immittance.Proofs.Expression.Reading

/-!
# The grammar of expressions

What an expression is, said without the way it is read: a token without an opening parenthesis, or a
wiring's name, a balanced body in parentheses and blanks. The members of a body are the balanced and
whole texts between its commas. Reading gives exactly the circuits that the grammar derives.
-/

set_option autoImplicit false

namespace Immittance.Expression

open Text

/-- The members of a body: none if it is blank, else the balanced and whole texts that joined by
commas make it up, with or without one more comma at its end. -/
inductive Members (b : List Char) : List (List Char) → Prop
  | none (blank : Blank b) : Members b []
  | list {ps : List (List Char)} (some : ps ≠ [])
      (body : b = joined ps ∨ b = joined ps ++ [','])
      (each : ∀ p ∈ ps, Balanced p ∧ Whole p) : Members b ps

inductive Derives : List Char → Circuit Float → Prop
  | token {s : List Char} {p : Part Float} (noParen : '(' ∉ s) (read : Token.read s = .ok p) :
      Derives s (.part p)
  | group {name body rest : List Char} {w : Wiring} {ps : List (List Char)}
      {cs : List (Circuit Float)} (noParen : '(' ∉ name) (wiring : w.word <+: lower (trim name))
      (balanced : Balanced body) (blank : Blank rest) (cut : Members body ps)
      (members : List.Forall₂ Derives ps cs) :
      Derives (name ++ '(' :: (body ++ ')' :: rest)) (.group w cs)

/-- What holds of every token, and of a group if it holds of its members, holds of every expression
and its circuit. -/
theorem Derives.by_members {motive : List Char → Circuit Float → Prop}
    (token : ∀ s p, '(' ∉ s → Token.read s = .ok p → motive s (.part p))
    (group : ∀ name body rest w ps cs, '(' ∉ name → Balanced body → Blank rest → Members body ps →
      List.Forall₂ (fun p c => Derives p c ∧ motive p c) ps cs →
      motive (name ++ '(' :: (body ++ ')' :: rest)) (.group w cs))
    {s : List Char} {c : Circuit Float} (h : Derives s c) : motive s c := by
  -- the second motive is of the members of a body, one by one
  refine @Derives.rec (fun s c _ => motive s c)
    (fun ps cs _ => List.Forall₂ (fun p c => Derives p c ∧ motive p c) ps cs) ?_ ?_ .nil ?_ _ _ h
  · intro s p hno hread
    exact token s p hno hread
  · intro name body rest w ps cs hno _ hb hr hm _ hps
    exact group name body rest w ps cs hno hb hr hm hps
  · intro p c ps cs hd _ hp hps
    exact .cons ⟨hd, hp⟩ hps

theorem read_trim_eq_ok_iff {s : List Char} {p : Part Float} :
    Token.read (trim s) = .ok p ↔ Token.read s = .ok p := by
  simp only [Token.read, trim_trim]
  by_cases h : (trim s).isEmpty = true <;> simp [h]

theorem not_blank_of_derives {s : List Char} {c : Circuit Float} (h : Derives s c) : ¬Blank s := by
  intro hb
  cases h with
  | token noParen read =>
    rw [Token.read, trim_eq_nil_iff.mpr hb] at read
    simp at read
  | group =>
    have := hb '(' (by simp)
    simp [isBlank, blanks] at this

theorem not_blank_of_members {ps : List (List Char)} {cs : List (Circuit Float)}
    (h : List.Forall₂ Derives ps cs) : ∀ p ∈ ps, ¬Blank p := by
  induction h with
  | nil => simp
  | cons hd _ ih =>
    intro p hp
    rcases List.mem_cons.mp hp with rfl | hm
    · exact not_blank_of_derives hd
    · exact ih p hm

theorem length_le_of_members {p body : List Char} {ps : List (List Char)}
    (h : Members body ps) (hp : p ∈ ps) : p.length ≤ body.length := by
  cases h with
  | none => simp at hp
  | list _ hb _ =>
    have := length_le_joined hp
    rcases hb with rfl | rfl
    · exact this
    · rw [List.length_append]
      omega

/-- If reading and deriving agree on the texts that are no longer than a body, they agree on the
members of the body. -/
theorem mapM_parse_eq_ok_iff {body : List Char} {cs : List (Circuit Float)} (hb : Balanced body)
    (ih : ∀ p : List Char, p.length ≤ body.length → ∀ c, parse p = .ok c ↔ Derives p c) :
    (splitTopLevel body).mapM parse = .ok cs ↔
      ∃ ps, Members body ps ∧ List.Forall₂ Derives ps cs := by
  have htrim : ∀ ps : List (List Char), (∀ p ∈ ps, p.length ≤ body.length) →
      ((ps.map trim).mapM parse = .ok cs ↔ List.Forall₂ Derives ps cs) := by
    intro ps hlen
    rw [mapM_eq_ok_iff, List.forall₂_map_left_iff]
    constructor
    · intro h
      refine ((List.forall₂_and_left ps cs).mpr ⟨hlen, h⟩).imp fun p c hpc => ?_
      rw [← ih p hpc.1, ← parse_trim]
      exact hpc.2
    · intro h
      refine ((List.forall₂_and_left ps cs).mpr ⟨hlen, h⟩).imp fun p c hpc => ?_
      rw [parse_trim, ih p hpc.1]
      exact hpc.2
  constructor
  · intro h
    by_cases hblank : Blank body
    · refine ⟨[], Members.none hblank, ?_⟩
      rw [splitTopLevel_of_blank hblank] at h
      exact (htrim [] (by simp)).mp h
    · obtain ⟨ps, hne, hsplit, hj, hw⟩ := exists_of_splitTopLevel hb hblank
      have hm := Members.list hne hj hw
      rw [hsplit] at h
      exact ⟨ps, hm, (htrim ps fun p hp => length_le_of_members hm hp).mp h⟩
  · rintro ⟨ps, hm, hps⟩
    have hread := (htrim ps fun p hp => length_le_of_members hm hp).mpr hps
    cases hm with
    | none hblank =>
      rw [splitTopLevel_of_blank hblank]
      exact hread
    | list hne hj hw =>
      have hall : ∀ p ∈ ps, Balanced p ∧ Whole p ∧ ¬Blank p := fun p hp =>
        ⟨(hw p hp).1, (hw p hp).2, not_blank_of_members hps p hp⟩
      rw [splitTopLevel_joined hne hj hall]
      exact hread

theorem parse_eq_ok_iff (s : List Char) (c : Circuit Float) :
    parse s = .ok c ↔ Derives s c := by
  -- on the length, since a member in the grammar has the blanks that reading trims
  induction hn : s.length using Nat.strong_induction_on generalizing s c with
  | _ n ih =>
    subst hn
    have hbody : ∀ {name body rest : List Char}, s = name ++ '(' :: (body ++ ')' :: rest) →
        ∀ p : List Char, p.length ≤ body.length → ∀ c, parse p = .ok c ↔ Derives p c := by
      rintro name body rest rfl p hp c
      refine ih p.length ?_ p c rfl
      simp only [List.length_append, List.length_cons]
      omega
    constructor
    · intro h
      cases hs : Shape.of s with
      | error e => simp [parse_of_error hs] at h
      | ok shape =>
        cases shape with
        | token x =>
          obtain ⟨hno, rfl⟩ := shape_eq_token_iff.mp hs
          rw [parse_of_token hs] at h
          obtain ⟨p, hp, rfl⟩ := map_eq_ok_iff.mp h
          exact Derives.token hno (read_trim_eq_ok_iff.mp hp)
        | group w ms =>
          rw [parse_of_group hs] at h
          obtain ⟨cs, hcs, rfl⟩ := map_eq_ok_iff.mp h
          obtain ⟨name, body, rest, rfl, hno, hw, hb, hr, rfl⟩ := shape_eq_group_iff.mp hs
          obtain ⟨ps, hm, hps⟩ := (mapM_parse_eq_ok_iff hb (hbody rfl)).mp hcs
          exact Derives.group hno hw hb hr hm hps
    · intro h
      cases h with
      | token hno hread =>
        rw [parse_of_token (shape_of_noParen hno), read_trim_eq_ok_iff.mpr hread]
        rfl
      | @group name body rest w ps cs hno hw hb hr hm hps =>
        have hs := shape_eq_group_iff.mpr ⟨name, body, rest, rfl, hno, hw, hb, hr, rfl⟩
        rw [parse_of_group hs, (mapM_parse_eq_ok_iff hb (hbody rfl)).mpr ⟨ps, hm, hps⟩]
        rfl

/-- Reading a text gives a circuit exactly when the text is an expression of it, and every text that
is no expression has an error. -/
theorem parse_iff_derives (s : List Char) :
    (∀ c, parse s = .ok c ↔ Derives s c) ∧ ((¬∃ c, Derives s c) → ∃ e, parse s = .error e) := by
  refine ⟨parse_eq_ok_iff s, fun h => ?_⟩
  cases hs : parse s with
  | error e => exact ⟨e, rfl⟩
  | ok c => exact absurd ⟨c, (parse_eq_ok_iff s c).mp hs⟩ h

end Immittance.Expression
