import Mathlib
import Immittance.Calculation.Schema
import Immittance.Proofs.Calculation.Checking

/-!
# The layout of a calculation file

Which documents have the layout of a calculation file, said without rules: the entries a mapping may
have and those it must have, items that stand for calculations, and a list of items with different
names. These are exactly the documents that have what the schema asks for.
-/

set_option autoImplicit false

namespace Immittance

open Letter

structure Item (α : Type := Char) where
  name : List α
  expression : List α
  frequency : Value α

namespace Schema

/-! ## The documented layout -/

inductive Identifier : List Char → Prop
  | plain {c : Char} {s : List Char} (start : isNameStart c = true)
      (parts : ∀ d ∈ s, isNamePart d = true) : Identifier (c :: s)
  | lineFeed {c : Char} {s : List Char} (start : isNameStart c = true)
      (parts : ∀ d ∈ s, isNamePart d = true) : Identifier (c :: (s ++ ['\n']))

section
variable {α : Type} [Letter α]

inductive Field : Value α × Value α → Prop
  | name {s : List Char} (identifier : Identifier s) : Field (.text (word "name"), .text (spell s))
  | expression {s : List α} (some : s ≠ []) : Field (.text (word "expression"), .text s)
  | whole (n : Int) : Field (.text (word "frequency"), .int n)
  | real (x : Float) : Field (.text (word "frequency"), .float x)
  | formula (s : List α) : Field (.text (word "frequency"), .text s)

inductive Calculates : Value α → Item α → Prop
  | map {es : List (Value α × Value α)} {i : Item α} (fields : ∀ e ∈ es, Field e)
      (name : Value.get? (word "name") es = some (.text i.name))
      (expression : Value.get? (word "expression") es = some (.text i.expression))
      (frequency : Value.get? (word "frequency") es = some i.frequency) : Calculates (.map es) i

inductive Lists : Value α → List (Item α) → Prop
  | list {vs : List (Value α)} {items : List (Item α)} (some : vs ≠ [])
      (each : List.Forall₂ Calculates vs items) (distinct : (items.map (·.name)).Nodup) :
      Lists (.list vs) items

/-- A document with the layout of a calculation file: a mapping with the list of calculations for its
only field. -/
inductive Documented : Value α → List (Item α) → Prop
  | map {es : List (Value α × Value α)} {v : Value α} {items : List (Item α)}
      (only : ∀ e ∈ es, e.1 = .text (word listField) ∧ ∃ listed, Lists e.2 listed)
      (present : Value.get? (word listField) es = some v) (lists : Lists v items) :
      Documented (.map es) items

end

/-! ## Names -/

theorem isIdentifier_iff {s : List Char} : isIdentifier s = true ↔ Identifier s := by
  cases s with
  | nil => exact ⟨nofun, nofun⟩
  | cons c s =>
    simp only [isIdentifier, Bool.and_eq_true, Bool.or_eq_true, List.isEmpty_iff, beq_iff_eq]
    constructor
    · rintro ⟨hc, hs | hs⟩
      · exact .plain hc (List.dropWhile_eq_nil_iff.mp hs)
      · rw [← List.takeWhile_append_dropWhile (p := isNamePart) (l := s), hs]
        exact .lineFeed hc fun d hd => List.mem_takeWhile_imp hd
    · rintro (⟨hc, hs⟩ | ⟨hc, hs⟩)
      · exact ⟨hc, Or.inl (List.dropWhile_eq_nil_iff.mpr hs)⟩
      · refine ⟨hc, Or.inr ?_⟩
        rw [List.dropWhile_append_of_pos hs, List.dropWhile_cons_of_neg (by decide)]

theorem ne_nil_of_identifier {s : List Char} (h : Identifier s) : s ≠ [] := by
  cases h <;> simp

section
variable {α : Type} [Letter α]

theorem isName_iff {s : List α} : isName s = true ↔ ∃ cs, s = spell cs ∧ Identifier cs := by
  rw [isName, Option.any_eq_true]
  exact exists_congr fun cs => and_congr mapM_char?_eq_some_iff isIdentifier_iff

theorem nameRule_eq_nil_iff {s : List α} :
    nameRule (.text s) = .ok [] ↔ ∃ cs, s = spell cs ∧ Identifier cs := by
  rw [nameRule, ← isName_iff]
  cases isName s <;> simp

/-! ## Fields -/

omit [Letter α] in
theorem size_text_iff {s : List α} {mayBeEmpty : Bool} :
    (∀ n, (Value.text s).size? = some n → 0 ≤ n ∧ (n = 0 → mayBeEmpty = true)) ↔
      (s = [] → mayBeEmpty = true) := by
  simp [Value.size?]

theorem accepts_name_iff {v : Value α} :
    Accepts nameRules v ↔ ∃ s, v = .text (spell s) ∧ Identifier s := by
  rw [accepts_iff]
  constructor
  · rintro ⟨⟨t, ht, htype⟩, -, own, -⟩
    obtain rfl := List.mem_singleton.mp ht
    cases v with
    | text s =>
      obtain ⟨cs, rfl, hcs⟩ := nameRule_eq_nil_iff.mp (own nameRule (by simp [nameRules]))
      exact ⟨cs, rfl, hcs⟩
    | _ => cases htype
  · rintro ⟨s, rfl, hs⟩
    refine ⟨⟨.text, by simp [nameRules], rfl⟩, size_text_iff.mpr fun hnil => ?_, ?_, nofun, nofun⟩
    · exact absurd (List.map_eq_nil_iff.mp hnil) (ne_nil_of_identifier hs)
    · intro rule hrule
      rw [List.mem_singleton.mp hrule]
      exact nameRule_eq_nil_iff.mpr ⟨s, rfl, hs⟩

theorem accepts_expression_iff {v : Value α} :
    Accepts expressionRules v ↔ ∃ s, v = .text s ∧ s ≠ [] := by
  rw [accepts_iff]
  constructor
  · rintro ⟨⟨t, ht, htype⟩, size, -⟩
    obtain rfl := List.mem_singleton.mp ht
    cases v with
    | text s => exact ⟨s, rfl, fun hnil => Bool.false_ne_true (size_text_iff.mp size hnil)⟩
    | _ => cases htype
  · rintro ⟨s, rfl, hs⟩
    exact ⟨⟨.text, by simp [expressionRules], rfl⟩, size_text_iff.mpr fun hnil => absurd hnil hs,
      nofun, nofun, nofun⟩

theorem accepts_frequency_iff {v : Value α} :
    Accepts frequencyRules v ↔ (∃ n, v = .int n) ∨ (∃ x, v = .float x) ∨ ∃ s, v = .text s := by
  rw [accepts_iff]
  constructor
  · rintro ⟨⟨t, ht, htype⟩, -⟩
    rcases List.mem_pair.mp ht with rfl | rfl
    · cases v with
      | int n => exact Or.inl ⟨n, rfl⟩
      | float x => exact Or.inr (Or.inl ⟨x, rfl⟩)
      | _ => cases htype
    · cases v with
      | text s => exact Or.inr (Or.inr ⟨s, rfl⟩)
      | _ => cases htype
  · rintro (⟨n, rfl⟩ | ⟨x, rfl⟩ | ⟨s, rfl⟩)
    · exact ⟨⟨.number, by simp [frequencyRules], rfl⟩, nofun, nofun, nofun, nofun⟩
    · exact ⟨⟨.number, by simp [frequencyRules], rfl⟩, nofun, nofun, nofun, nofun⟩
    · exact ⟨⟨.text, by simp [frequencyRules], rfl⟩, size_text_iff.mpr fun _ => rfl, nofun, nofun,
        nofun⟩

theorem field_iff {e : Value α × Value α} :
    Field e ↔ ∃ f ∈ fields, e.1 = .text (spell f.1) ∧ Accepts f.2 e.2 := by
  obtain ⟨k, v⟩ := e
  simp only [fields, List.exists_mem_cons_iff, List.not_mem_nil, false_and, exists_false, or_false,
    accepts_name_iff, accepts_expression_iff, accepts_frequency_iff]
  constructor
  · intro h
    cases h with
    | name identifier => exact Or.inl ⟨rfl, _, rfl, identifier⟩
    | expression some => exact Or.inr (Or.inl ⟨rfl, _, rfl, some⟩)
    | whole n => exact Or.inr (Or.inr ⟨rfl, Or.inl ⟨n, rfl⟩⟩)
    | real x => exact Or.inr (Or.inr ⟨rfl, Or.inr (Or.inl ⟨x, rfl⟩)⟩)
    | formula s => exact Or.inr (Or.inr ⟨rfl, Or.inr (Or.inr ⟨s, rfl⟩)⟩)
  · rintro (⟨rfl, s, rfl, hs⟩ | ⟨rfl, s, rfl, hs⟩ | ⟨rfl, ⟨n, rfl⟩ | ⟨x, rfl⟩ | ⟨s, rfl⟩⟩)
    · exact .name hs
    · exact .expression hs
    · exact .whole n
    · exact .real x
    · exact .formula s

/-! ## Calculations -/

theorem word_eq_iff {s t : String} : (word s : List α) = word t ↔ s = t := by
  rw [word, word, spell_inj, String.toList_inj]

theorem identifier_of_name {v : Value α} (h : Field (.text (word "name"), v)) :
    ∃ s, v = .text (spell s) ∧ Identifier s := by
  generalize hkey : (.text (word "name") : Value α) = key at h
  cases h with
  | name identifier => exact ⟨_, rfl, identifier⟩
  | _ => simp [word_eq_iff] at hkey

theorem text_of_expression {v : Value α} (h : Field (.text (word "expression"), v)) :
    ∃ s, v = .text s := by
  generalize hkey : (.text (word "expression") : Value α) = key at h
  cases h with
  | name | expression | formula => exact ⟨_, rfl⟩
  | _ => simp [word_eq_iff] at hkey

theorem number_or_text_of_frequency {v : Value α} (h : Field (.text (word "frequency"), v)) :
    (∃ n, v = .int n) ∨ (∃ x, v = .float x) ∨ ∃ s, v = .text s := by
  generalize hkey : (.text (word "frequency") : Value α) = key at h
  cases h with
  | whole n => exact Or.inl ⟨n, rfl⟩
  | real x => exact Or.inr (Or.inl ⟨x, rfl⟩)
  | formula s => exact Or.inr (Or.inr ⟨s, rfl⟩)
  | _ => simp [word_eq_iff] at hkey

theorem fields_nodup : ((fields : FieldRules α).map (·.1)).Nodup := by
  change ["name".toList, "expression".toList, "frequency".toList].Nodup
  decide

theorem acceptsAll_fields_iff {es : List (Value α × Value α)} :
    AcceptsAll fields es ↔ (∀ e ∈ es, Field e) ∧
      (∃ v, Value.get? (word "name") es = some v) ∧
      (∃ v, Value.get? (word "expression") es = some v) ∧
      ∃ v, Value.get? (word "frequency") es = some v := by
  rw [acceptsAll_iff fields_nodup]
  simp only [field_iff]
  refine and_congr_right fun _ => ?_
  simp [fields, nameRules, expressionRules, frequencyRules, word]

theorem accepts_calculation_iff {v : Value α} :
    Accepts calculation v ↔ ∃ i, Calculates v i := by
  constructor
  · rintro ⟨⟨t, ht, htype⟩, -, -, -, ofFields⟩
    obtain rfl := List.mem_singleton.mp ht
    cases v with
    | map es =>
      obtain ⟨hes, ⟨n, hn⟩, ⟨x, hx⟩, f, hf⟩ := acceptsAll_fields_iff.mp (ofFields _ es rfl rfl)
      obtain ⟨name, rfl, -⟩ := identifier_of_name (hes _ (Value.mem_of_get? hn))
      obtain ⟨expression, rfl⟩ := text_of_expression (hes _ (Value.mem_of_get? hx))
      exact ⟨⟨spell name, expression, f⟩, .map hes hn hx hf⟩
    | _ => cases htype
  · rintro ⟨i, ⟨hes, hn, hx, hf⟩⟩
    refine .intro ⟨.mapping, by simp [calculation], rfl⟩ ?_ nofun nofun ?_
    · exact fun n _ => ⟨Nat.zero_le n, fun _ => rfl⟩
    · rintro _ _ ⟨rfl⟩ ⟨rfl⟩
      exact acceptsAll_fields_iff.mpr ⟨hes, ⟨_, hn⟩, ⟨_, hx⟩, _, hf⟩

/-! ## Different names -/

theorem names_of_calculates {vs : List (Value α)} {items : List (Item α)}
    (h : List.Forall₂ Calculates vs items) : names vs = items.map fun i => .text i.name := by
  induction h with
  | nil => rfl
  | cons hv _ ih =>
    obtain ⟨_, hn, _, _⟩ := hv
    simp only [names, hn, ih, List.map_cons]

theorem any_same_text {seen : List (List α)} {s : List α} :
    (seen.map Value.text).any (·.same (.text s)) = true ↔ s ∈ seen := by
  simp [Value.same_text_iff]

theorem repeated_texts_eq_nil_iff (seen ss : List (List α)) :
    repeated (seen.map .text) (ss.map .text) = .ok [] ↔ ss.Nodup ∧ ∀ s ∈ ss, s ∉ seen := by
  induction ss generalizing seen with
  | nil => simp [repeated]
  | cons s ss ih =>
    rw [List.map_cons, repeated, List.nodup_cons, List.forall_mem_cons]
    simp only [Value.notKey?]
    by_cases hs : s ∈ seen
    · rw [if_pos (any_same_text.mpr hs)]
      constructor
      · intro h
        obtain ⟨_, _, h⟩ := bind_eq_ok_iff.mp h
        cases h
      · rintro ⟨_, hseen, _⟩
        exact absurd hs hseen
    · rw [if_neg (any_same_text.not.mpr hs), ← List.map_cons, ih]
      grind

theorem distinct_eq_nil_iff {vs : List (Value α)} : distinct vs = [] ↔ vs = [] := by
  rw [distinct, Finding.foldl_eq_nil_iff]
  · simp
  · intro found v
    split
    · next hany =>
      obtain ⟨w, hw, _⟩ := List.any_eq_true.mp hany
      exact List.ne_nil_of_mem hw
    · simp

theorem duplicates_eq_nil_iff {vs : List (Value α)} :
    duplicates vs = .ok [] ↔ repeated [] (names vs) = .ok [] := by
  rw [duplicates, bind_eq_ok_iff]
  constructor
  · rintro ⟨again, hagain, h⟩
    obtain rfl := distinct_eq_nil_iff.mp (List.nil_perm.mp (Order.sortBy_perm h))
    exact hagain
  · intro h
    exact ⟨[], h, rfl⟩

theorem duplicates_of_calculates {vs : List (Value α)} {items : List (Item α)}
    (h : List.Forall₂ Calculates vs items) :
    duplicates vs = .ok [] ↔ (items.map (·.name)).Nodup := by
  have hnames : items.map (fun i => Value.text i.name) = (items.map (·.name)).map .text := by
    rw [List.map_map]
    rfl
  have hrepeated := repeated_texts_eq_nil_iff [] (items.map (·.name))
  rw [duplicates_eq_nil_iff, names_of_calculates h, hnames]
  simpa using hrepeated

theorem namesRule_eq_nil_iff {vs : List (Value α)} :
    namesRule (.list vs) = .ok [] ↔ duplicates vs = .ok [] := by
  rw [namesRule, bind_eq_ok_iff]
  constructor
  · rintro ⟨shared, hshared, h⟩
    cases shared with
    | nil => exact hshared
    | cons n ns =>
      obtain ⟨_, -, h⟩ := bind_eq_ok_iff.mp h
      cases h
  · exact fun h => ⟨[], h, rfl⟩

/-! ## The whole document -/

/-- What is a list by its type and has calculations for its members is a list of them. -/
theorem accepts_list_iff {v : Value α} : Accepts list v ↔ ∃ items, Lists v items := by
  constructor
  · rintro ⟨⟨t, ht, htype⟩, size, own, ofItems, -⟩
    have hmember := fun w hw => accepts_calculation_iff.mp (ofItems _ rfl w hw)
    obtain rfl := List.mem_singleton.mp ht
    cases v with
    | list vs =>
      obtain ⟨items, hitems⟩ := exists_forall₂_iff.mpr hmember
      have hnames := namesRule_eq_nil_iff.mp (own namesRule (by simp [list]))
      have hsome : vs ≠ [] := List.length_pos_iff.mp (size _ rfl).1
      exact ⟨items, .list hsome hitems ((duplicates_of_calculates hitems).mp hnames)⟩
    | pairs es =>
      cases es with
      | nil => cases (size 0 rfl).1
      | cons e es =>
        obtain ⟨_, h⟩ := hmember _ List.mem_cons_self
        cases h
    | bytes bs =>
      cases bs with
      | nil => cases (size 0 rfl).1
      | cons b bs =>
        obtain ⟨_, h⟩ := hmember _ List.mem_cons_self
        cases h
    | _ => cases htype
  · rintro ⟨items, ⟨some, each, distinct⟩⟩
    refine .intro ⟨.list, by simp [list], rfl⟩ ?_ ?_ ?_ nofun
    · rintro _ ⟨rfl⟩
      exact ⟨List.length_pos_iff.mpr some, fun _ => rfl⟩
    · intro rule hrule
      rw [List.mem_singleton.mp hrule]
      exact namesRule_eq_nil_iff.mpr ((duplicates_of_calculates each).mpr distinct)
    · rintro _ ⟨rfl⟩
      exact fun w hw => accepts_calculation_iff.mpr (exists_forall₂_iff.mp ⟨items, each⟩ w hw)

theorem number_or_text_of_documented {d : Value α} {items : List (Item α)} (h : Documented d items) :
    ∀ i ∈ items, (∃ n, i.frequency = .int n) ∨ (∃ x, i.frequency = .float x) ∨
      ∃ s, i.frequency = .text s := by
  obtain ⟨_, _, ⟨_, each, _⟩⟩ := h
  refine forall_of_forall₂ each fun v _ i hi => ?_
  obtain ⟨hes, _, _, hf⟩ := hi
  exact number_or_text_of_frequency (hes _ (Value.mem_of_get? hf))

/-- A mapping has what the schema asks for exactly if it is documented. -/
theorem acceptsAll_document_iff {es : List (Value α × Value α)} :
    AcceptsAll document es ↔ ∃ items, Documented (.map es) items := by
  have hdistinct : ((document : FieldRules α).map (·.1)).Nodup := List.nodup_singleton _
  rw [acceptsAll_iff hdistinct]
  simp only [document, List.mem_singleton, exists_eq_left, forall_eq, accepts_list_iff]
  constructor
  · rintro ⟨only, present⟩
    obtain ⟨v, hv⟩ := present rfl
    obtain ⟨_, items, hitems⟩ := only _ (Value.mem_of_get? hv)
    exact ⟨items, .map only hv hitems⟩
  · rintro ⟨items, ⟨only, present, _⟩⟩
    exact ⟨only, fun _ => ⟨_, present⟩⟩

end

end Schema

end Immittance
