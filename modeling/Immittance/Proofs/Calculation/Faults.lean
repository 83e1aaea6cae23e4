import Mathlib
import Immittance.Proofs.Calculation.Comparing
import Immittance.Proofs.Calculation.Loading

/-!
# Why a file gives no requests

The faults of a file, each with what it is about: the first thing that is wrong on the way from bytes
to a document, its layout and its frequencies. Some of them are passed on as they are, and the file is
not blamed; which files these are follows.
-/

set_option autoImplicit false

namespace Immittance

open Letter Schema

section
variable {α : Type} [Letter α]

namespace FileFault

def isExplained : FileFault α → Bool
  | unexplained _ => false
  | _ => true

omit [Letter α] in
theorem isExplained_ofReading {e : Raised α} :
    (ofReading e).isExplained = (e.isOne .permission || e.isOne .yaml) := by
  rw [ofReading]
  cases e.isOne .permission <;> cases e.isOne .yaml <;> rfl

omit [Letter α] in
theorem ofReading_ne_layout {e : Raised α} {found : Findings α} : ofReading e ≠ .layout found := by
  rw [ofReading]
  split_ifs <;> exact nofun

theorem ofFrequency_ne_layout {name : List α} {given : Value α} {e : Raised α} {found : Findings α} :
    ofFrequency name given e ≠ .layout found := by
  rw [ofFrequency]
  split_ifs
  · cases given.plain <;> exact nofun
  · exact nofun

end FileFault

/-! ## Frequencies -/

namespace Item

variable {R : Registry α} {path : List Char} {i : Item α} {fault : FileFault α}

theorem request_eq_error_iff :
    i.request R path = .error fault ↔ ∃ e, R.toHertz i.frequency = .error e ∧
      fault = .ofFrequency i.name i.frequency e := by
  rw [request]
  cases R.toHertz i.frequency with
  | ok x => simp
  | error e => simp [eq_comm]

theorem mapM_request_eq_error_iff {items : List (Item α)} :
    items.mapM (request R path) = .error fault ↔
      ∃ before i after e, items = before ++ i :: after ∧
        (∀ b ∈ before, ∃ x, R.toHertz b.frequency = .ok x) ∧ R.toHertz i.frequency = .error e ∧
        fault = .ofFrequency i.name i.frequency e := by
  simp only [mapM_eq_error_iff, request_eq_ok_iff, exists_asks_iff, request_eq_error_iff,
    exists_and_left]

theorem isAny_of_whole {n : ℤ} {e : Raised α} (h : R.toHertz (.int n) = .error e) :
    e.isAny FileFault.frequencyKinds = false := by
  have hfault : ∀ f, realOfWhole n = .error f → f = .wholeTooLarge := fun f hf => by
    rw [realOfWhole] at hf
    split at hf
    · cases hf
    · exact (Except.error.inj hf).symm
  obtain ⟨f, hf, rfl⟩ := mapError_eq_error_iff.mp h
  rw [hfault f hf]
  rfl

/-- The fault of a frequency is explained exactly if the error is one that is expected. -/
theorem isExplained_ofFrequency {e : Raised α} (h : R.toHertz i.frequency = .error e)
    (hgiven : (∃ n, i.frequency = .int n) ∨ (∃ x, i.frequency = .float x) ∨
      ∃ s, i.frequency = .text s) :
    (FileFault.ofFrequency i.name i.frequency e).isExplained = e.isAny FileFault.frequencyKinds := by
  rw [FileFault.ofFrequency]
  rcases hgiven with ⟨n, hn⟩ | ⟨x, hx⟩ | ⟨s, hs⟩
  · rw [hn] at h
    rw [isAny_of_whole h]
    rfl
  · rw [hx] at h
    cases h
  · rw [hs]
    cases e.isAny FileFault.frequencyKinds <;> rfl

end Item

/-! ## The faults of a file -/

namespace CalculationFile

inductive Fails (L : Libraries α) (file : CalculationFile α) : FileFault α → Prop
  | missing (absent : file.content = .absent) : Fails L file .missing
  | opening {e : Raised α} (content : file.content = .unreadable e) : Fails L file (.ofReading e)
  | reading {bs : List ℕ} {e : Raised α} (content : file.content = .bytes bs)
      (fault : L.read bs = .error e) : Fails L file (.ofReading e)
  | empty (document : file.document L = .ok .null) : Fails L file .empty
  | notMapping {d : Value α} (document : file.document L = .ok d) (notNull : d ≠ .null)
      (notMap : ∀ es, d ≠ .map es) : Fails L file .notMapping
  | checking {es : List (Value α × Value α)} {e : Raised α}
      (document : file.document L = .ok (.map es)) (fault : L.validate Schema.document es = .error e) :
      Fails L file (.unexplained e)
  | layout {es : List (Value α × Value α)} {verdict : Verdict α}
      (document : file.document L = .ok (.map es))
      (fault : L.validate Schema.document es = .ok verdict) (some : verdict.errors ≠ []) :
      Fails L file (.layout verdict.errors)
  | frequency {d : Value α} {before after : List (Item α)} {i : Item α} {e : Raised α}
      (document : file.document L = .ok d) (documented : Documented d (before ++ i :: after))
      (converted : ∀ b ∈ before, ∃ x, L.registry.toHertz b.frequency = .ok x)
      (fault : L.registry.toHertz i.frequency = .error e) :
      Fails L file (.ofFrequency i.name i.frequency e)

variable {L : Libraries α} {file : CalculationFile α} {fault : FileFault α}

omit [Letter α] in
theorem document_eq_error_iff :
    file.document L = .error fault ↔
      (file.content = .absent ∧ fault = .missing) ∨
      (∃ e, file.content = .unreadable e ∧ fault = .ofReading e) ∨
      ∃ bs e, file.content = .bytes bs ∧ L.read bs = .error e ∧ fault = .ofReading e := by
  rw [document]
  cases file.content with
  | bytes bs => simp [mapError_eq_error_iff]
  | _ => simp [eq_comm]

theorem readDocument_eq_error_iff (hL : L.validate.Obeys Schema.document) {path : List Char}
    {es : List (Value α × Value α)} :
    readDocument L path (.map es) = .error fault ↔
      (∃ e, L.validate Schema.document es = .error e ∧ fault = .unexplained e) ∨
      (∃ verdict, L.validate Schema.document es = .ok verdict ∧ verdict.errors ≠ [] ∧
        fault = .layout verdict.errors) ∨
      ∃ items, Documented (.map es) items ∧
        items.mapM (Item.request L.registry path) = .error fault := by
  constructor
  · intro h
    cases hcheck : L.validate Schema.document es with
    | error e =>
      rw [readDocument, hcheck] at h
      exact Or.inl ⟨e, rfl, (Except.error.inj h).symm⟩
    | ok verdict =>
      obtain ⟨errors, d⟩ := verdict
      cases errors with
      | nil =>
        obtain ⟨items, hitems⟩ := acceptsAll_document_iff.mp ((hL.accepts es).mp ⟨d, hcheck⟩)
        rw [readDocument_of_documented hL hitems] at h
        exact Or.inr (Or.inr ⟨items, hitems, h⟩)
      | cons f fs =>
        rw [readDocument, hcheck] at h
        exact Or.inr (Or.inl ⟨_, rfl, List.cons_ne_nil f fs, (Except.error.inj h).symm⟩)
  · rintro (⟨e, hcheck, rfl⟩ | ⟨⟨errors, d⟩, hcheck, hsome, rfl⟩ | ⟨items, hitems, h⟩)
    · rw [readDocument, hcheck]
      rfl
    · obtain ⟨f, fs, rfl⟩ := List.exists_cons_of_ne_nil hsome
      rw [readDocument, hcheck]
      rfl
    · rw [readDocument_of_documented hL hitems]
      exact h

theorem fails_iff (hL : L.validate.Obeys Schema.document) :
    file.Fails L fault ↔ file.document L = .error fault ∨
      ∃ d, file.document L = .ok d ∧ readDocument L file.path d = .error fault := by
  constructor
  · intro h
    cases h with
    | missing absent => exact Or.inl (document_eq_error_iff.mpr (Or.inl ⟨absent, rfl⟩))
    | opening content =>
      exact Or.inl (document_eq_error_iff.mpr (Or.inr (Or.inl ⟨_, content, rfl⟩)))
    | reading content fault =>
      exact Or.inl (document_eq_error_iff.mpr (Or.inr (Or.inr ⟨_, _, content, fault, rfl⟩)))
    | empty document => exact Or.inr ⟨_, document, rfl⟩
    | @notMapping d document notNull notMap =>
      refine Or.inr ⟨d, document, ?_⟩
      cases d with
      | null => exact absurd rfl notNull
      | map es => exact absurd rfl (notMap es)
      | _ => rfl
    | checking document fault =>
      exact Or.inr ⟨_, document, (readDocument_eq_error_iff hL).mpr (Or.inl ⟨_, fault, rfl⟩)⟩
    | layout document fault some =>
      exact Or.inr ⟨_, document,
        (readDocument_eq_error_iff hL).mpr (Or.inr (Or.inl ⟨_, fault, some, rfl⟩))⟩
    | frequency document documented converted fault =>
      refine Or.inr ⟨_, document, ?_⟩
      rw [readDocument_of_documented hL documented]
      exact Item.mapM_request_eq_error_iff.mpr ⟨_, _, _, _, rfl, converted, fault, rfl⟩
  · rintro (h | ⟨d, hd, h⟩)
    · rcases document_eq_error_iff.mp h with ⟨hc, rfl⟩ | ⟨e, hc, rfl⟩ | ⟨bs, e, hc, he, rfl⟩
      · exact .missing hc
      · exact .opening hc
      · exact .reading hc he
    · cases d with
      | null =>
        rw [← Except.error.inj h]
        exact .empty hd
      | map es =>
        rcases (readDocument_eq_error_iff hL).mp h with
          ⟨e, he, rfl⟩ | ⟨verdict, hverdict, hsome, rfl⟩ | ⟨items, hitems, h⟩
        · exact .checking hd he
        · exact .layout hd hverdict hsome
        · obtain ⟨before, i, after, e, rfl, hb, hi, rfl⟩ := Item.mapM_request_eq_error_iff.mp h
          exact .frequency hd hitems hb hi
      | _ =>
        rw [← Except.error.inj h]
        exact .notMapping hd (by simp) (by simp)

theorem load_eq_error_iff (hL : L.validate.Obeys Schema.document) {e : FileError α} :
    file.loadWith L = .error e ↔ e.path = file.path ∧ file.Fails L e.fault := by
  rw [loadWith, mapError_eq_error_iff]
  simp only [bind_eq_error_iff, ← fails_iff hL]
  constructor
  · rintro ⟨fault, h, rfl⟩
    exact ⟨rfl, h⟩
  · rintro ⟨hpath, h⟩
    exact ⟨e.fault, h, by rw [← hpath]⟩

/-! ## Errors that are explained -/

def isAnswered (L : Libraries α) (file : CalculationFile α) : Bool :=
  match file.loadWith L with
  | .ok _ => true
  | .error e => e.fault.isExplained

theorem isAnswered_iff_fails (hL : L.validate.Obeys Schema.document) :
    file.isAnswered L = true ↔ ∀ fault, file.Fails L fault → fault.isExplained = true := by
  have hfails : ∀ fault, file.Fails L fault ↔ file.loadWith L = .error ⟨file.path, fault⟩ :=
    fun fault => by rw [load_eq_error_iff hL, and_iff_right rfl]
  simp only [hfails]
  rw [isAnswered]
  cases h : file.loadWith L with
  | ok rs => simp
  | error e =>
    obtain ⟨path, fault⟩ := e
    obtain ⟨rfl, _⟩ := (load_eq_error_iff hL).mp h
    constructor
    · rintro he _ hfault
      rwa [← (FileError.mk.inj (Except.error.inj hfault)).2]
    · exact fun he => he fault rfl

/-- The first frequency that cannot be converted, if there is one, raises an error that is expected of
frequencies. -/
def Convertible (R : Registry α) (d : Value α) : Prop :=
  ∀ before i after e, Documented d (before ++ i :: after) →
    (∀ b ∈ before, ∃ x, R.toHertz b.frequency = .ok x) → R.toHertz i.frequency = .error e →
    e.isAny FileFault.frequencyKinds

/-- A file of which everything that can go wrong is explained: it can be opened and read, or the error
is one that is expected of that, the check of its layout comes to an end, and so is what is wrong with
its frequencies. -/
structure Explainable (L : Libraries α) (file : CalculationFile α) : Prop where
  opened : ∀ e, file.content = .unreadable e → e.isOne .permission ∨ e.isOne .yaml
  read : ∀ bs e, file.content = .bytes bs → L.read bs = .error e → e.isOne .permission ∨ e.isOne .yaml
  checked : ∀ es, file.document L = .ok (.map es) →
    ∃ verdict, L.validate Schema.document es = .ok verdict
  convertible : ∀ d, file.document L = .ok d → Convertible L.registry d

theorem isAnswered_iff (hL : L.validate.Obeys Schema.document) :
    file.isAnswered L = true ↔ file.Explainable L := by
  rw [isAnswered_iff_fails hL]
  constructor
  · intro h
    constructor
    case opened =>
      intro e he
      simpa [FileFault.isExplained_ofReading] using h _ (.opening he)
    case read =>
      intro bs e hbs he
      simpa [FileFault.isExplained_ofReading] using h _ (.reading hbs he)
    case checked =>
      intro es hes
      cases hcheck : L.validate Schema.document es with
      | ok verdict => exact ⟨verdict, rfl⟩
      | error e => exact absurd (h _ (.checking hes hcheck)) Bool.false_ne_true
    case convertible =>
      intro d hd before i after e hitems hbefore he
      have hgiven := number_or_text_of_documented hitems i (by simp)
      rw [← Item.isExplained_ofFrequency he hgiven]
      exact h _ (.frequency hd hitems hbefore he)
  · intro h fault hfault
    cases hfault with
    | opening content =>
      rw [FileFault.isExplained_ofReading]
      simpa using h.opened _ content
    | reading content fault =>
      rw [FileFault.isExplained_ofReading]
      simpa using h.read _ _ content fault
    | checking document fault =>
      obtain ⟨verdict, hverdict⟩ := h.checked _ document
      cases hverdict.symm.trans fault
    | @frequency d before after i e document documented converted fault =>
      have hgiven := number_or_text_of_documented documented i (by simp)
      rw [Item.isExplained_ofFrequency fault hgiven]
      exact h.convertible d document before i after e documented converted fault
    | _ => rfl

theorem nameable_of_verdict (hL : L.validate.Obeys Schema.document) {es : List (Value α × Value α)}
    {vs : List (Value α)} {verdict : Verdict α} (h : L.validate Schema.document es = .ok verdict)
    (hlist : Value.get? (word listField) es = some (.list vs)) : Nameable vs := by
  have hown := hL.runs h _ (Value.mem_of_get? hlist) listField.toList Schema.list rfl
    List.lookup_cons_self ⟨.list, by simp [Schema.list], rfl⟩
  exact exists_namesRule_iff.mp (hown namesRule (by simp [Schema.list]))

theorem explainable_iff_of_plain (hends : L.validate.Ends Schema.document)
    {es : List (Value α × Value α)} (hdoc : file.document L = .ok (.map es)) (hplain : Plain es) :
    file.Explainable L ↔ Convertible L.registry (.map es) := by
  constructor
  · exact fun h => h.convertible _ hdoc
  · intro h
    constructor
    case opened =>
      intro e he
      rw [document, he] at hdoc
      cases hdoc
    case read =>
      intro bs e hbs he
      simp only [document, hbs, he] at hdoc
      cases hdoc
    case checked =>
      intro es' hes'
      obtain rfl := Value.map.inj (Except.ok.inj (hdoc.symm.trans hes'))
      exact hends es hplain.checkable
    case convertible =>
      intro d hd
      obtain rfl := Except.ok.inj (hdoc.symm.trans hd)
      exact h

/-- Loading a file gives requests or an error that is explained exactly if the file is explainable. It
is not if the names of its list cannot be compared, or if a whole number for a frequency is too large
and nothing else is wrong before. Where the document is plain, only its frequencies matter. -/
theorem isAnswered_iff_explainable (L : Libraries α) (hL : L.validate.Obeys Schema.document)
    (file : CalculationFile α) :
    (file.isAnswered L = true ↔ file.Explainable L) ∧
    (∀ es vs, file.document L = .ok (.map es) →
      Value.get? (word listField) es = some (.list vs) → file.isAnswered L = true → Nameable vs) ∧
    (∀ d before i after n, file.document L = .ok d → Documented d (before ++ i :: after) →
      (∀ b ∈ before, ∃ x, L.registry.toHertz b.frequency = .ok x) → i.frequency = .int n →
      file.isAnswered L = true → ∃ x, (Amount.whole n).toReal = .ok x) ∧
    (L.validate.Ends Schema.document → ∀ es, file.document L = .ok (.map es) → Plain es →
      (file.isAnswered L = true ↔ Convertible L.registry (.map es))) := by
  rw [isAnswered_iff hL]
  refine ⟨Iff.rfl, fun es vs hes hvs h => ?_, fun d before i after n hd hitems hbefore hn h => ?_,
    fun hends es hes hplain => explainable_iff_of_plain hends hes hplain⟩
  · obtain ⟨verdict, hverdict⟩ := h.checked es hes
    exact nameable_of_verdict hL hverdict hvs
  · cases hx : L.registry.toHertz (.int n) with
    | ok x => exact ⟨x, mapError_eq_ok_iff.mp hx⟩
    | error e =>
      have hany := h.convertible d hd before i after e hitems hbefore (hn ▸ hx)
      rw [Item.isAny_of_whole hx] at hany
      cases hany

end CalculationFile

end

namespace CalculationFile

def oneFrequency (s : String) : CalculationFile :=
  ⟨"/calc/calcs.yaml".toList, .bytes (Text.utf8Bytes
    ("calculations:\n- name: a\n  expression: R:1\n  frequency: \"" ++ s ++ "\"\n").toList)⟩

def lengthItem : List (Value × Value) :=
  [(.text "name".toList, .text "a".toList), (.text "expression".toList, .text "R:1".toList),
   (.text "frequency".toList, .text "3 m".toList)]

def lengthDocument : List (Value × Value) :=
  [(.text "calculations".toList, .list [.map lengthItem])]

theorem plain_length : Plain lengthDocument where
  keys := by simp [lengthDocument, TextKeys]
  list := by
    rintro e he - vs hvs
    rw [List.mem_singleton.mp he] at hvs
    obtain rfl := Value.list.inj hvs
    refine ⟨nameable_of_texts ?_, fun fs hfs => ?_⟩
    · rw [show names [.map lengthItem] = [.text "a".toList] from rfl]
      simp
    · obtain rfl := Value.map.inj (List.mem_singleton.mp hfs)
      simp [lengthItem, TextKeys]
  untyped := by
    rintro e he - fs hfs
    rw [List.mem_singleton.mp he] at hfs
    cases hfs

theorem explainable_length : Libraries.standard.validate.Obeys Schema.document ∧
    Libraries.standard.validate.Ends Schema.document ∧ (oneFrequency "3 m").Explainable .standard ∧
    Convertible Registry.standard (.map lengthDocument) := by
  have hobeys := Validator.standard_obeys (Schema.document : FieldRules Char)
  have hends := Validator.standard_ends (Schema.document : FieldRules Char)
  have hanswered : (oneFrequency "3 m").isAnswered .standard = true := by decide +kernel
  let file : CalculationFile := ⟨"/calc/calcs.yaml".toList, .document (.map lengthDocument)⟩
  have hplain : file.isAnswered .standard = true := by decide +kernel
  refine ⟨hobeys, hends, (isAnswered_iff_explainable .standard hobeys _).1.mp hanswered, ?_⟩
  exact ((isAnswered_iff_explainable .standard hobeys file).2.2.2 hends _ rfl plain_length).mp hplain

/-- A file with a blank frequency is not blamed for it. -/
theorem isAnswered_blank : (oneFrequency " ").isAnswered .standard = false := by
  decide +kernel

end CalculationFile

end Immittance
