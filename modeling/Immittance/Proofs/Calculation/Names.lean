import Mathlib
import Immittance.Proofs.Calculation.Loading
import Immittance.Proofs.Text.Utf8

/-!
# The names of loaded calculations

The calculations that a file gives have different names. Each name is made of ASCII letters, digits
and underscores and does not begin with a digit, up to one line feed at its end. The line feed passes
the check of names, so a name has the form that the complaint about names asks for exactly if it does
not end in one.
-/

set_option autoImplicit false

namespace Immittance

open Letter

namespace Schema

structure PlainName (s : List Char) : Prop where
  nonempty : s ≠ []
  chars : ∀ c ∈ s, c.isAlphanum = true ∨ c = '_'
  first : ∀ c, s.head? = some c → c.isDigit = false

theorem isNameStart_iff {c : Char} : isNameStart c = true ↔ c.isAlpha = true ∨ c = '_' := by
  simp only [isNameStart, Char.isAlpha, Char.isUpper, Char.isLower, Bool.or_eq_true,
    Bool.and_eq_true, decide_eq_true_eq, beq_iff_eq, Char.le_def, ge_iff_le]
  tauto

theorem isNamePart_iff {c : Char} : isNamePart c = true ↔ c.isAlphanum = true ∨ c = '_' := by
  have hdigit : (decide ('0' ≤ c) && decide (c ≤ '9')) = c.isDigit := rfl
  rw [isNamePart, Bool.or_eq_true, isNameStart_iff, hdigit, Char.isAlphanum, Bool.or_eq_true]
  tauto

/-- What names begin with is no digit, though digits may follow. -/
theorem not_digit_of_isNameStart {c : Char} (h : isNameStart c = true) : c.isDigit = false := by
  rw [isNameStart_iff] at h
  rcases h with h | rfl
  · have hc : c.toNat = c.val.toNat := rfl
    have h9 : '9'.val.toNat = 57 := rfl
    have hA : 'A'.val.toNat = 65 := rfl
    have ha : 'a'.val.toNat = 97 := rfl
    simp only [Char.isAlpha, Char.isUpper, Char.isLower, Char.isDigit, Bool.or_eq_true,
      Bool.and_eq_true, Bool.and_eq_false_iff, decide_eq_true_eq, decide_eq_false_iff_not,
      UInt32.le_iff_toNat_le, ge_iff_le] at h ⊢
    omega
  · rfl

theorem isNameStart_of_part {c : Char} (h : isNamePart c = true) (hdigit : c.isDigit = false) :
    isNameStart c = true := by
  have hdigit' : (decide ('0' ≤ c) && decide (c ≤ '9')) = c.isDigit := rfl
  rw [isNamePart, hdigit', hdigit, Bool.or_false] at h
  exact h

theorem plainName_cons_iff {c : Char} {s : List Char} :
    PlainName (c :: s) ↔ isNameStart c = true ∧ ∀ d ∈ s, isNamePart d = true := by
  constructor
  · rintro ⟨-, hchars, hfirst⟩
    obtain ⟨hc, hs⟩ := List.forall_mem_cons.mp hchars
    exact ⟨isNameStart_of_part (isNamePart_iff.mpr hc) (hfirst c rfl),
      fun d hd => isNamePart_iff.mpr (hs d hd)⟩
  · rintro ⟨hc, hs⟩
    refine ⟨List.cons_ne_nil c s, List.forall_mem_cons.mpr ⟨?_, fun d hd => isNamePart_iff.mp (hs d hd)⟩, ?_⟩
    · rw [← isNamePart_iff, isNamePart, hc, Bool.true_or]
    · rintro d hd
      rw [← Option.some.inj hd]
      exact not_digit_of_isNameStart hc

theorem PlainName.not_lineFeed {s : List Char} (h : PlainName s) : '\n' ∉ s := by
  intro hmem
  have := h.chars _ hmem
  revert this
  decide

/-- An identifier is a plain name, alone or with a line feed behind it. -/
theorem identifier_iff {s : List Char} :
    Identifier s ↔ ∃ name, PlainName name ∧ (s = name ∨ s = name ++ ['\n']) := by
  constructor
  · rintro (⟨hc, hs⟩ | ⟨hc, hs⟩)
    · exact ⟨_, plainName_cons_iff.mpr ⟨hc, hs⟩, Or.inl rfl⟩
    · exact ⟨_, plainName_cons_iff.mpr ⟨hc, hs⟩, Or.inr rfl⟩
  · rintro ⟨name, hname, h⟩
    obtain ⟨c, name, rfl⟩ := List.exists_cons_of_ne_nil hname.nonempty
    obtain ⟨hc, hs⟩ := plainName_cons_iff.mp hname
    rcases h with rfl | rfl
    · exact .plain hc hs
    · exact .lineFeed hc hs

theorem plainName_iff_of_identifier {s : List Char} (h : Identifier s) :
    PlainName s ↔ s.getLast? ≠ some '\n' := by
  obtain ⟨name, hname, rfl | rfl⟩ := identifier_iff.mp h
  · exact iff_of_true hname fun hlast => hname.not_lineFeed (List.mem_of_getLast? hlast)
  · exact iff_of_false (fun hplain => hplain.not_lineFeed (by simp)) (by simp)

theorem identifier_of_calculates {α : Type} [Letter α] {v : Value α} {i : Item α}
    (h : Calculates v i) : ∃ s, i.name = spell s ∧ Identifier s := by
  obtain ⟨hfields, hname, -, -⟩ := h
  obtain ⟨s, hs, hidentifier⟩ := identifier_of_name (hfields _ (Value.mem_of_get? hname))
  exact ⟨s, Value.text.inj hs, hidentifier⟩

end Schema

namespace CalculationFile

open Schema

section
variable {α : Type} [Letter α]

theorem names_of_asks {R : Registry α} {path : List Char} {items : List (Item α)}
    {rs : List (Request α)} (h : List.Forall₂ (Item.Asks R path) items rs) :
    rs.map (·.name) = items.map (·.name) := by
  induction h with
  | nil => rfl
  | cons hr _ ih => rw [List.map_cons, List.map_cons, hr.name, ih]

/-- Whatever the libraries, the requests of a file have different names, and each is an identifier. -/
theorem names_of_loadWith {L : Libraries α} (hL : L.validate.Obeys Schema.document)
    {file : CalculationFile α} {rs : List (Request α)} (h : file.loadWith L = .ok rs) :
    (rs.map (·.name)).Nodup ∧ ∀ r ∈ rs, ∃ s, r.name = spell s ∧ Identifier s := by
  simp only [loadWith, mapError_eq_ok_iff, bind_eq_ok_iff, readDocument_eq_ok_iff hL] at h
  obtain ⟨d, -, items, hitems, hrs⟩ := h
  obtain ⟨-, -, ⟨-, heach, hdistinct⟩⟩ := hitems
  have hnames := names_of_asks hrs
  refine ⟨hnames ▸ hdistinct, fun r hr => ?_⟩
  have hmem : r.name ∈ items.map (·.name) := hnames ▸ List.mem_map_of_mem hr
  obtain ⟨i, hi, hname⟩ := List.mem_map.mp hmem
  rw [← hname]
  exact forall_of_forall₂ heach (fun _ _ _ => identifier_of_calculates) i hi

end

/-- The requests of a file have different names, each a plain name or a plain name with a line feed
behind it. -/
theorem names_of_load (file : CalculationFile) {rs : List Request} (h : file.load = .ok rs) :
    (rs.map (·.name)).Nodup ∧ ∀ r ∈ rs,
      (∃ name, PlainName name ∧ (r.name = name ∨ r.name = name ++ ['\n'])) ∧
      (PlainName r.name ↔ r.name.getLast? ≠ some '\n') := by
  obtain ⟨hdistinct, hnames⟩ := names_of_loadWith (Validator.standard_obeys Schema.document) h
  refine ⟨hdistinct, fun r hr => ?_⟩
  obtain ⟨s, hs, hidentifier⟩ := hnames r hr
  rw [hs, spell_char]
  exact ⟨identifier_iff.mp hidentifier, plainName_iff_of_identifier hidentifier⟩

def brokenLine : CalculationFile :=
  ⟨"/calc/calcs.yaml".toList, .bytes (Text.utf8Bytes
    ("calculations:\n- name: \"a\\n\"\n  expression: R:1\n  frequency: 50\n" ++
      "- name: a\n  expression: R:2\n  frequency: 60\n").toList)⟩

theorem brokenLine_names :
    (brokenLine.load.toOption.map fun rs => rs.map (·.name)) = some ["a\n".toList, "a".toList] := by
  decide +kernel

theorem brokenLine_load : ∃ rs, brokenLine.load = .ok rs ∧ rs.map (·.name) = ["a\n".toList, "a".toList] := by
  have hnames := brokenLine_names
  cases h : brokenLine.load with
  | error e =>
    rw [h] at hnames
    cases hnames
  | ok rs =>
    rw [h] at hnames
    exact ⟨rs, rfl, Option.some.inj hnames⟩

theorem names_of_brokenLine : ∃ rs, brokenLine.load = .ok rs ∧
    (rs.map (·.name)).Nodup ∧ ∀ r ∈ rs,
      (∃ name, PlainName name ∧ (r.name = name ∨ r.name = name ++ ['\n'])) ∧
      (PlainName r.name ↔ r.name.getLast? ≠ some '\n') := by
  obtain ⟨rs, h, -⟩ := brokenLine_load
  exact ⟨rs, h, names_of_load brokenLine h⟩

/-- A name with a line feed at its end is not plain, and the file gives a request with it. -/
theorem not_plain_of_brokenLine : ¬ ∀ (file : CalculationFile) (rs : List Request),
    file.load = .ok rs → ∀ r ∈ rs, PlainName r.name := by
  intro hplain
  obtain ⟨rs, h, hnames⟩ := brokenLine_load
  have hmem : "a\n".toList ∈ rs.map (·.name) := by rw [hnames]; exact List.mem_cons_self
  obtain ⟨r, hr, hname⟩ := List.mem_map.mp hmem
  have hword := (hplain brokenLine rs h r hr).not_lineFeed
  rw [hname] at hword
  exact hword (by decide)

end CalculationFile

end Immittance
