import Mathlib
import Immittance.Calculation.Rules
import Immittance.Proofs.Text.Letter

/-!
# What rules ask for

A value has what its rules ask for, and what the rules for its items and fields ask for has all that is
in it. A way of checking documents goes by the rules if nothing is found in exactly the documents that
have what is asked for, which are used as they are, if it cannot get past a rule of the schema's own
that raises an error, and if the fields at fault are those of the document or of the rules.

The checks of a file are left to a library, and what follows about files rests on these properties.
Where it is said that a check comes to an end, so does this: fields that are texts can be put in order,
so only a rule of the schema's own can raise an error about a document without other fields, or a
mapping that is taken for rules.
-/

set_option autoImplicit false

namespace Immittance

open Letter

variable {α : Type} [Letter α]

mutual

inductive Accepts : Rules α → Value α → Prop
  | intro {r : Rules α} {v : Value α}
      (type : ∃ t ∈ r.types, t.admits v = true)
      (size : ∀ n, v.size? = some n → r.least ≤ n ∧ (n = 0 → r.mayBeEmpty = true))
      (own : ∀ rule ∈ r.own, rule v = .ok [])
      (items : ∀ s, r.items = some s → ∀ w ∈ v.members, Accepts s w)
      (fields : ∀ fs es, r.fields = some fs → v = .map es → AcceptsAll fs es) : Accepts r v

inductive AcceptsAll : FieldRules α → List (Value α × Value α) → Prop
  | intro {fs : FieldRules α} {es : List (Value α × Value α)}
      (known : ∀ e ∈ es, ∃ k r, e.1 = .text (spell k) ∧ fs.lookup k = some r)
      (each : ∀ e ∈ es, ∀ k r, e.1 = .text (spell k) → fs.lookup k = some r → Accepts r e.2)
      (present : ∀ f ∈ fs, f.2.required = true → ∃ v, Value.get? (spell f.1) es = some v) :
      AcceptsAll fs es

end

theorem accepts_iff {r : Rules α} {v : Value α} :
    Accepts r v ↔ (∃ t ∈ r.types, t.admits v = true) ∧
      (∀ n, v.size? = some n → r.least ≤ n ∧ (n = 0 → r.mayBeEmpty = true)) ∧
      (∀ rule ∈ r.own, rule v = .ok []) ∧
      (∀ s, r.items = some s → ∀ w ∈ v.members, Accepts s w) ∧
      ∀ fs es, r.fields = some fs → v = .map es → AcceptsAll fs es := by
  constructor
  · rintro ⟨type, size, own, items, fields⟩
    exact ⟨type, size, own, items, fields⟩
  · rintro ⟨type, size, own, items, fields⟩
    exact .intro type size own items fields

omit [Letter α] in
theorem mem_of_lookup {fs : FieldRules α} {k : List Char} {r : Rules α} (h : fs.lookup k = some r) :
    (k, r) ∈ fs := by
  obtain ⟨before, after, rfl, _⟩ := List.lookup_eq_some_iff.mp h
  simp

omit [Letter α] in
theorem lookup_of_mem {fs : FieldRules α} (h : (fs.map (·.1)).Nodup) {f : List Char × Rules α}
    (hf : f ∈ fs) : fs.lookup f.1 = some f.2 := by
  obtain ⟨before, after, rfl⟩ := List.append_of_mem hf
  refine List.lookup_eq_some_iff.mpr ⟨before, after, rfl, fun g hg => bne_iff_ne.mpr fun heq => ?_⟩
  rw [List.map_append, List.nodup_append] at h
  exact h.2.2 g.1 (List.mem_map_of_mem hg) f.1 (by simp) heq.symm

/-- A mapping with rules for different fields. -/
theorem acceptsAll_iff {fs : FieldRules α} {es : List (Value α × Value α)}
    (h : (fs.map (·.1)).Nodup) :
    AcceptsAll fs es ↔ (∀ e ∈ es, ∃ f ∈ fs, e.1 = .text (spell f.1) ∧ Accepts f.2 e.2) ∧
      ∀ f ∈ fs, f.2.required = true → ∃ v, Value.get? (spell f.1) es = some v := by
  constructor
  · rintro ⟨known, each, present⟩
    refine ⟨fun e he => ?_, present⟩
    obtain ⟨k, r, hkey, hr⟩ := known e he
    exact ⟨(k, r), mem_of_lookup hr, hkey, each e he k r hkey hr⟩
  · rintro ⟨each, present⟩
    refine .intro (fun e he => ?_) (fun e he k r hkey hr => ?_) present
    · obtain ⟨f, hf, hkey, -⟩ := each e he
      exact ⟨f.1, f.2, hkey, lookup_of_mem h hf⟩
    · obtain ⟨f, hf, hkey', hvalue⟩ := each e he
      obtain rfl : k = f.1 := spell_injective (Value.text.inj (hkey.symm.trans hkey'))
      rw [lookup_of_mem h hf] at hr
      rwa [← Option.some.inj hr]

/-! ## Checks that come to an end -/

def Value.IsText (v : Value α) : Prop := ∃ s, v = .text s

omit [Letter α] in
@[simp] theorem Value.isText_text (s : List α) : (Value.text s).IsText := ⟨s, rfl⟩

def TextKeys {β : Type} (es : List (Value α × β)) : Prop := ∀ e ∈ es, e.1.IsText

mutual

inductive Checkable : Rules α → Value α → Prop
  | intro {r : Rules α} {v : Value α}
      (untyped : ∀ s es, r.items = some s → v = .map es → Value.get? (word "type") es = none)
      (own : ∀ rule ∈ r.own, ∃ cs, rule v = .ok cs)
      (items : ∀ s, r.items = some s → ∀ w ∈ v.members, Checkable s w)
      (fields : ∀ fs es, r.fields = some fs → v = .map es → CheckableAll fs es) : Checkable r v

inductive CheckableAll : FieldRules α → List (Value α × Value α) → Prop
  | intro {fs : FieldRules α} {es : List (Value α × Value α)} (keys : TextKeys es)
      (each : ∀ e ∈ es, ∀ k r, e.1 = .text (spell k) → fs.lookup k = some r → Checkable r e.2) :
      CheckableAll fs es

end

/-! ## Ways of checking -/

structure Validator.Obeys (V : Validator α) (fs : FieldRules α) : Prop where
  accepts : ∀ es, (∃ d, V fs es = .ok ⟨[], d⟩) ↔ AcceptsAll fs es
  keeps : ∀ {es d}, V fs es = .ok ⟨[], d⟩ → d = es
  runs : ∀ {es verdict}, V fs es = .ok verdict → ∀ e ∈ es, ∀ k r, e.1 = .text (spell k) →
    fs.lookup k = some r → (∃ t ∈ r.types, t.admits e.2 = true) →
    ∀ rule ∈ r.own, ∃ cs, rule e.2 = .ok cs
  fields : ∀ {es verdict}, V fs es = .ok verdict → ∀ f ∈ verdict.errors,
    f.1 ∈ es.map (·.1) ∨ ∃ g ∈ fs, f.1 = .text (spell g.1)

def Validator.Ends (V : Validator α) (fs : FieldRules α) : Prop :=
  ∀ es, CheckableAll fs es → ∃ verdict, V fs es = .ok verdict

namespace Validator

variable {V : Validator α} {fs : FieldRules α} {es : List (Value α × Value α)}

theorem Obeys.eq_ok_iff (h : V.Obeys fs) : V fs es = .ok ⟨[], es⟩ ↔ AcceptsAll fs es := by
  rw [← h.accepts]
  constructor
  · exact fun hes => ⟨es, hes⟩
  · rintro ⟨d, hd⟩
    rwa [h.keeps hd] at hd

end Validator

end Immittance
