import Mathlib
import Immittance.Calculation.File
import Immittance.Proofs.Calculation.Layout
import Immittance.Proofs.Text.Utf8

/-!
# Loading a calculation file

A file gives requests exactly if its document has the layout of a calculation file and every frequency
in it can be converted. It gives one request for each calculation, in the order of the document.

This rests on nothing but the rules that a validator goes by. How bytes are read and what frequencies
come to is up to the libraries.
-/

set_option autoImplicit false

namespace Immittance

open Letter Schema

section
variable {α : Type} [Letter α]

namespace Item

def request (R : Registry α) (path : List Char) (i : Item α) : Except (FileFault α) (Request α) :=
  match R.toHertz i.frequency with
  | .ok f => .ok ⟨i.name, i.expression, f, path⟩
  | .error e => .error (.ofFrequency i.name i.frequency e)

structure Asks (R : Registry α) (path : List Char) (i : Item α) (r : Request α) : Prop where
  name : r.name = i.name
  expression : r.expression = i.expression
  frequency : R.toHertz i.frequency = .ok r.frequency
  source : r.source = path

variable {R : Registry α} {path : List Char} {i : Item α}

theorem request_eq_ok_iff {r : Request α} : i.request R path = .ok r ↔ Asks R path i r := by
  obtain ⟨name, expression, f, source⟩ := r
  rw [request]
  cases h : R.toHertz i.frequency with
  | ok g =>
    constructor
    · intro hr
      cases hr
      exact ⟨rfl, rfl, h, rfl⟩
    · rintro ⟨hname, hexpression, hf, hsource⟩
      cases h.symm.trans hf
      simp only at hname hexpression hsource
      rw [hname, hexpression, hsource]
  | error fault =>
    constructor
    · exact nofun
    · rintro ⟨_, _, hf, _⟩
      cases h.symm.trans hf

variable (R path) in
theorem exists_asks_iff : (∃ r, Asks R path i r) ↔ ∃ f, R.toHertz i.frequency = .ok f := by
  constructor
  · rintro ⟨r, hr⟩
    exact ⟨r.frequency, hr.frequency⟩
  · rintro ⟨f, hf⟩
    exact ⟨⟨i.name, i.expression, f, path⟩, rfl, rfl, hf, rfl⟩

end Item

namespace CalculationFile

variable {L : Libraries α} {path : List Char}

theorem request_of_calculates {R : Registry α} {v : Value α} {i : Item α} (h : Calculates v i) :
    request R path v = i.request R path := by
  obtain ⟨_, hn, hx, hf⟩ := h
  rw [request, hn, hx, hf]
  rfl

theorem mapM_request {R : Registry α} {vs : List (Value α)} {items : List (Item α)}
    (h : List.Forall₂ Calculates vs items) :
    vs.mapM (request R path) = items.mapM (Item.request R path) := by
  induction h with
  | nil => rfl
  | cons hv _ ih => rw [List.mapM_cons, List.mapM_cons, request_of_calculates hv, ih]

theorem requests_of_documented {R : Registry α} {es : List (Value α × Value α)}
    {items : List (Item α)} (h : Documented (.map es) items) :
    requests R path es = items.mapM (Item.request R path) := by
  obtain ⟨_, present, ⟨_, each, _⟩⟩ := h
  rw [requests, present]
  exact mapM_request each

theorem readDocument_of_documented (hL : L.validate.Obeys Schema.document) {d : Value α}
    {items : List (Item α)} (h : Documented d items) :
    readDocument L path d = items.mapM (Item.request L.registry path) := by
  obtain ⟨es, rfl⟩ : ∃ es, d = .map es := by
    cases h
    exact ⟨_, rfl⟩
  rw [readDocument, hL.eq_ok_iff.mpr (acceptsAll_document_iff.mpr ⟨items, h⟩)]
  exact requests_of_documented h

theorem readDocument_eq_ok_iff (hL : L.validate.Obeys Schema.document) {d : Value α}
    {rs : List (Request α)} :
    readDocument L path d = .ok rs ↔
      ∃ items, Documented d items ∧ List.Forall₂ (Item.Asks L.registry path) items rs := by
  have hasks : ∀ items : List (Item α), items.mapM (Item.request L.registry path) = .ok rs ↔
      List.Forall₂ (Item.Asks L.registry path) items rs := fun items => by
    simp only [mapM_eq_ok_iff, Item.request_eq_ok_iff]
  constructor
  · intro h
    cases d with
    | map es =>
      obtain ⟨⟨errors, document⟩, hverdict, hrest⟩ := bind_eq_ok_iff.mp h
      cases errors with
      | nil =>
        have hes := (hL.accepts es).mp ⟨document, mapError_eq_ok_iff.mp hverdict⟩
        obtain ⟨items, hitems⟩ := acceptsAll_document_iff.mp hes
        rw [readDocument_of_documented hL hitems] at h
        exact ⟨items, hitems, (hasks items).mp h⟩
      | cons f fs => cases hrest
    | _ => cases h
  · rintro ⟨items, hitems, hrs⟩
    rw [readDocument_of_documented hL hitems]
    exact (hasks items).mpr hrs

/-- A file gives requests exactly if it has a document with the documented layout and every frequency
in it can be converted, and then one for each calculation, in order. -/
theorem load_eq_ok_iff (L : Libraries α) (hL : L.validate.Obeys Schema.document)
    (file : CalculationFile α) :
    (∀ rs, file.loadWith L = .ok rs ↔ ∃ d items, file.document L = .ok d ∧ Documented d items ∧
      List.Forall₂ (Item.Asks L.registry file.path) items rs) ∧
    ((∃ rs, file.loadWith L = .ok rs) ↔ ∃ d items, file.document L = .ok d ∧ Documented d items ∧
      ∀ i ∈ items, ∃ f, L.registry.toHertz i.frequency = .ok f) := by
  have hload : ∀ rs, file.loadWith L = .ok rs ↔ ∃ d items, file.document L = .ok d ∧
      Documented d items ∧ List.Forall₂ (Item.Asks L.registry file.path) items rs := fun rs => by
    simp only [loadWith, mapError_eq_ok_iff, bind_eq_ok_iff, readDocument_eq_ok_iff hL,
      exists_and_left]
  refine ⟨hload, ?_⟩
  constructor
  · rintro ⟨rs, h⟩
    obtain ⟨d, items, hd, hitems, hrs⟩ := (hload rs).mp h
    exact ⟨d, items, hd, hitems, fun i hi =>
      (Item.exists_asks_iff L.registry file.path).mp (exists_forall₂_iff.mp ⟨rs, hrs⟩ i hi)⟩
  · rintro ⟨d, items, hd, hitems, hf⟩
    have hasks := fun i hi => (Item.exists_asks_iff L.registry file.path).mpr (hf i hi)
    obtain ⟨rs, hrs⟩ := exists_forall₂_iff.mpr hasks
    exact ⟨rs, (hload rs).mpr ⟨d, items, hd, hitems, hrs⟩⟩

end CalculationFile

end

namespace CalculationFile

/-- The reader that comes with this library takes in the bytes of texts and no others. -/
theorem document_standard_eq_ok_iff {path : List Char} {bs : List ℕ} {d : Value} :
    document .standard ⟨path, .bytes bs⟩ = .ok d ↔
      ∃ s, bs = Text.utf8Bytes s ∧ Yaml.ofText s = .ok d := by
  rw [document, mapError_eq_ok_iff]
  show Yaml.read bs = .ok d ↔ _
  rw [Yaml.read, bind_eq_ok_iff]
  simp only [mapError_eq_ok_iff, Text.decodeUtf8_eq_ok_iff]

def surrogateItem : Item CodePoint := ⟨word "a", [0xd800], .int 50⟩

def surrogateDocument : Value CodePoint :=
  .map [(.text (word listField), .list [.map [(.text (word "name"), .text surrogateItem.name),
    (.text (word "expression"), .text surrogateItem.expression),
    (.text (word "frequency"), surrogateItem.frequency)]])]

def surrogateLibraries : Libraries CodePoint where
  read _ := .ok surrogateDocument
  validate := Validator.standard
  registry := ⟨Unit, fun _ => .error (.ofType "no quantity"), fun _ => .ok true, fun q => .ok q.1⟩

theorem documented_surrogate : Documented surrogateDocument [surrogateItem] := by
  refine .map (List.forall_mem_singleton.mpr ⟨rfl, _, ?lists⟩) rfl ?lists
  refine .list (List.cons_ne_nil _ _) (.cons (.map ?_ rfl rfl rfl) .nil) (List.nodup_singleton _)
  have hname : Identifier "a".toList := .plain (by decide) nofun
  simp only [List.forall_mem_cons]
  exact ⟨.name hname, .expression (List.cons_ne_nil _ _), .whole 50, nofun⟩

theorem load_eq_ok_iff_surrogate : surrogateLibraries.validate.Obeys Schema.document ∧
    ∃ rs, loadWith surrogateLibraries ⟨"/calc/calcs.yaml".toList, .bytes (Text.utf8Bytes
      ("calculations:\n- name: a\n  expression: \"\\ud800\"\n  frequency: 50\n").toList)⟩ =
        .ok rs ∧
      rs.map (·.expression) = [[0xd800]] := by
  have hobeys := Validator.standard_obeys (Schema.document : FieldRules CodePoint)
  obtain ⟨f, hf⟩ := exists_ok_of_isOk (x := surrogateLibraries.registry.toHertz (.int 50)) (by
    decide +kernel)
  have hasks : Item.Asks surrogateLibraries.registry "/calc/calcs.yaml".toList surrogateItem
      ⟨word "a", [0xd800], f, "/calc/calcs.yaml".toList⟩ := ⟨rfl, rfl, hf, rfl⟩
  exact ⟨hobeys, _, ((load_eq_ok_iff surrogateLibraries hobeys _).1 _).mpr
    ⟨_, _, rfl, documented_surrogate, .cons hasks .nil⟩, rfl⟩

end CalculationFile

end Immittance
