import Mathlib
import Immittance.Failure
import Immittance.Proofs.Calculation.Faults
import Immittance.Proofs.Impedance.Group

/-!
# Errors that can be shown

The message and the report of an error are texts. A report is made once more here with every step
checked that could fail: the logarithm of a frequency, its prefix. None of this is ever met. What may
fail is to sort the fields of a wrong layout, and to write the numbers in it. The message and the report
of such an error exist exactly if the fields, where there are several, are of one rank and no number is
too long. The fields are of one rank if the keys of a document are texts.
-/

set_option autoImplicit false

namespace Immittance

open Letter

/-! ## Frequencies -/

namespace Frequency

inductive Trouble where
  | logarithm (x : Float)
  | prefixless (p : ℤ)

def logarithm (x : Float) : Except Trouble Float :=
  if 0 < x then .ok x.log10 else .error (.logarithm x)

def symbol (p : ℤ) : Except Trouble (List Char) :=
  match prefixes.lookup p with
  | some s => .ok s
  | none => .error (.prefixless p)

def strictText (f : Float) : Except Trouble (List Char) :=
  if f.isFinite && 0 < f then do
    let log ← logarithm f
    let p := max (-30) (min 30 (3 * Binary.floor (log / 3)))
    let symbol ← symbol p
    let size := if p = 0 then f else f * (1 / Decimal.nearest 1 p)
    return significantText 6 size ++ ' ' :: symbol ++ ['H', 'z']
  else return significantText 6 f ++ [' ', 'H', 'z']

theorem exists_symbol {k : ℤ} (hlo : -10 ≤ k) (hhi : k ≤ 10) :
    ∃ s, prefixes.lookup (3 * k) = some s := by
  have htable : ∀ n : Fin 21, (prefixes.lookup (3 * ((n : ℕ) - 10 : ℤ))).isSome = true := by decide
  obtain ⟨n, hn⟩ : ∃ n : Fin 21, k = (n : ℕ) - 10 := ⟨⟨(k + 10).toNat, by omega⟩, by dsimp only; omega⟩
  rw [hn]
  exact Option.isSome_iff_exists.mp (htable n)

theorem strictText_eq (f : Float) : strictText f = .ok (text f) := by
  rw [text]
  by_cases h : (f.isFinite && decide (0 < f)) = true
  · obtain ⟨-, hpos⟩ := Bool.and_eq_true_iff.mp h
    have hlog : logarithm f = .ok f.log10 := if_pos (of_decide_eq_true hpos)
    obtain ⟨k, hk, hlo, hhi⟩ : ∃ k, power f = 3 * k ∧ -10 ≤ k ∧ k ≤ 10 :=
      ⟨max (-10) (min 10 (Binary.floor (f.log10 / 3))), by rw [power]; omega, by omega, by omega⟩
    obtain ⟨s, hs⟩ := exists_symbol hlo hhi
    rw [← hk] at hs
    have hsymbol : symbol (power f) = .ok s := by rw [symbol, hs]
    have hstrict : strictText f = symbol (power f) >>= fun s => .ok (significantText 6
        (if power f = 0 then f else f * (1 / Decimal.nearest 1 (power f))) ++ ' ' :: s ++
          ['H', 'z']) := by
      rw [strictText, if_pos h, hlog]
      rfl
    rw [if_pos h, hstrict, hsymbol]
    dsimp only
    rw [hs]
    rfl
  · rw [strictText, if_neg h, if_neg h]
    rfl

end Frequency

/-! ## Reports -/

section
variable {α : Type} [Letter α]

namespace Report

open Frequency

def frequencyLines : Option Float → Except Trouble (List (List α))
  | none => .ok []
  | some f => do return [word "Frequency:      " ++ spell (← Frequency.strictText f)]

def strictContext (r : Report α) : Except Trouble (List (List α)) := do
  let frequency ← frequencyLines r.frequency
  return labelled "Element:        " r.element ++
    labelled "Source File:    " r.sourceFile ++
    (if r.userInput.isEmpty then []
     else [word "User Input:     '" ++ r.userInput ++ spell ['\x27']]) ++ frequency

def strictText (r : Report α) : Except Trouble (List α) := do
  let context ← r.strictContext
  return (spell ['\n']).intercalate
    ([spell ['\n'], word heading, word "Error Type:     " ++ r.kind] ++ context ++
      (word "\nDetails:" :: indented r.details) ++
      (if r.suggestion.isEmpty then [] else word "\nSuggestion:" :: indented r.suggestion) ++
      [word rule])

theorem strictContext_eq (r : Report α) : r.strictContext = .ok r.contextLines := by
  rw [strictContext, contextLines]
  cases r.frequency with
  | none => rfl
  | some f =>
    rw [frequencyLines, Frequency.strictText_eq]
    rfl

theorem strictText_eq (r : Report α) : r.strictText = .ok r.text := by
  rw [strictText, strictContext_eq]
  rfl

end Report

/-! ## Failures -/

structure Failure.Shown (e : Failure α) : Prop where
  message : ∃ m, e.message = .ok m
  report : ∃ r t, e.report? = some (.ok r) ∧ r.strictText = .ok t

theorem shown_expression (e : ParseError) : (Failure.expression e : Failure α).Shown :=
  ⟨⟨_, rfl⟩, _, _, rfl, Report.strictText_eq _⟩

theorem shown_circuit (e : Fault Float) : (Failure.circuit e : Failure α).Shown :=
  ⟨⟨_, rfl⟩, _, _, rfl, Report.strictText_eq _⟩

theorem shown_layout_iff {path : List Char} {found : Findings α} :
    (Failure.file ⟨path, .layout found⟩).Shown ↔ found.Showable := by
  constructor
  · rintro ⟨⟨m, hm⟩, -⟩
    obtain ⟨s, hs, -⟩ := bind_eq_ok_iff.mp hm
    exact (Findings.exists_text_iff _).mp ⟨s, hs⟩
  · intro h
    obtain ⟨s, hs⟩ := (Findings.exists_text_iff "  - In field '").mpr h
    obtain ⟨t, ht⟩ := (Findings.exists_text_iff "  - Field '").mpr h
    constructor
    case message => exact ⟨_, bind_eq_ok_iff.mpr ⟨s, hs, rfl⟩⟩
    case report =>
      exact ⟨_, _, congrArg some (bind_eq_ok_iff.mpr ⟨t, ht, rfl⟩), Report.strictText_eq _⟩

theorem shown_details {e : FileError α} {details : List α} (h : e.details? = some details) :
    (Failure.file e).Shown := by
  constructor
  case message =>
    rw [Failure.message, FileError.message, h]
    exact ⟨_, rfl⟩
  case report =>
    rw [Failure.report?, FileError.report?, h]
    exact ⟨_, _, rfl, Report.strictText_eq _⟩

/-- An error that the file is blamed for is shown, unless its layout is wrong in fields that cannot be
sorted or written. -/
theorem shown_file_iff {e : FileError α} (h : e.fault.isExplained = true) :
    (Failure.file e).Shown ↔ ∀ found, e.fault = .layout found → found.Showable := by
  obtain ⟨path, fault⟩ := e
  cases fault with
  | layout found =>
    rw [shown_layout_iff]
    exact ⟨fun h _ hfound => FileFault.layout.inj hfound ▸ h, fun h => h found rfl⟩
  | unexplained e => cases h
  | _ => exact iff_of_true (shown_details rfl) nofun

/-! ## The fields of a layout -/

/-- The fields of a wrong layout are of one rank if the keys of the document are texts. -/
theorem ofOneRank_of_textKeys {L : Libraries α}
    (hL : L.validate.Obeys Schema.document) {file : CalculationFile α} {e : FileError α}
    (h : file.loadWith L = .error e) {found : Findings α} (hfound : e.fault = .layout found)
    {es : List (Value α × Value α)} (hdoc : file.document L = .ok (.map es)) (hes : TextKeys es) :
    found.OfOneRank := by
  obtain ⟨-, hfails⟩ := (CalculationFile.load_eq_error_iff hL).mp h
  generalize e.fault = fault at hfound hfails
  cases hfails with
  | @layout entries verdict document fault some =>
    obtain rfl := FileFault.layout.inj hfound
    obtain rfl := Value.map.inj (Except.ok.inj (document.symm.trans hdoc))
    refine Or.inr ⟨.text, fun f hf => ?_⟩
    rcases hL.fields fault f hf with hkey | ⟨g, -, hkey⟩
    · obtain ⟨entry, hentry, hkey⟩ := List.mem_map.mp hkey
      obtain ⟨s, hs⟩ := hes entry hentry
      rw [← hkey, hs]
      rfl
    · rw [hkey]
      rfl
  | opening | reading => exact absurd hfound FileFault.ofReading_ne_layout
  | frequency => exact absurd hfound FileFault.ofFrequency_ne_layout
  | _ => cases hfound

inductive Failure.Diagnosed (L : Libraries α) : Failure α → Prop
  | expression {s : List Char} {e : ParseError} (fails : Expression.parse s = .error e) :
      Diagnosed L (.expression e)
  | circuit {c : Circuit Float} {f : Float} {e : Fault Float} (fails : c.impedance f = .error e) :
      Diagnosed L (.circuit e)
  | file {file : CalculationFile α} {e : FileError α} (fails : file.loadWith L = .error e)
      (blamed : e.fault.isExplained = true) : Diagnosed L (.file e)

/-- Every failure that can be explained is shown, unless it is a wrong layout with several fields that
are not of one rank, or with a number that is too long. The fields are of one rank if the keys of the
document are texts. -/
theorem diagnosed_shown_iff (L : Libraries α) (hL : L.validate.Obeys Schema.document)
    {e : Failure α} (h : e.Diagnosed L) :
    (e.Shown ↔ ∀ path found, e = .file ⟨path, .layout found⟩ →
      found.OfOneRank ∧ Value.Short (Finding.wholesFields found)) ∧
    ∀ (file : CalculationFile α) (es : List (Value α × Value α)) (path : List Char)
      (found : Findings α), file.loadWith L = .error ⟨path, .layout found⟩ →
      file.document L = .ok (.map es) → TextKeys es → found.OfOneRank := by
  refine ⟨?_, fun file es path found hload hdoc hes =>
    ofOneRank_of_textKeys hL hload rfl hdoc hes⟩
  have hshowable : ∀ found : Findings α,
      found.OfOneRank ∧ Value.Short (Finding.wholesFields found) ↔ found.Showable :=
    fun found => ⟨fun h => ⟨h.1, h.2⟩, fun h => ⟨h.1, h.2⟩⟩
  simp only [hshowable]
  cases h with
  | @expression s e fails => exact iff_of_true (shown_expression e) nofun
  | @circuit c f e fails => exact iff_of_true (shown_circuit e) nofun
  | @file file e fails blamed =>
    rw [shown_file_iff blamed]
    constructor
    · rintro h path found hfile
      exact h found (congrArg FileError.fault (Failure.file.inj hfile))
    · intro h found hfound
      exact h e.path found (by rw [← hfound])

end

theorem exists_load_error (file : CalculationFile) (p : FileError → Bool)
    (h : (match file.load with | .error e => p e | .ok _ => false) = true) :
    ∃ e, file.load = .error e ∧ p e = true := by
  cases hload : file.load with
  | ok requests =>
    rw [hload] at h
    exact absurd h Bool.false_ne_true
  | error e =>
    rw [hload] at h
    exact ⟨e, rfl, h⟩

def otherFields : CalculationFile :=
  ⟨"calcs.yaml".toList,
    .document (.map [(.text "runs".toList, .null), (.text "author".toList, .null)])⟩

def FileFault.findings? {α : Type} : FileFault α → Option (Findings α)
  | layout found => some found
  | _ => none

theorem otherFields_layout : ∃ path found, otherFields.load = .error ⟨path, .layout found⟩ ∧
    Finding.wholesFields found = [] := by
  obtain ⟨⟨path, fault⟩, hload, hfault⟩ := exists_load_error otherFields
    (fun e => e.fault.findings?.any fun found => (Finding.wholesFields found).isEmpty)
    (by decide +kernel)
  cases fault with
  | layout found => exact ⟨path, found, hload, List.isEmpty_iff.mp hfault⟩
  | _ => cases hfault

theorem diagnosed_shown_texts : Libraries.standard.validate.Obeys Schema.document ∧
    (∃ e, Expression.parse "R".toList = .error e ∧ (Failure.expression e : Failure).Shown) ∧
    (∃ e, (Circuit.group .series []).impedance (50 : Float) = .error e ∧
      (Failure.circuit e : Failure).Shown) ∧
    ∃ e, otherFields.load = .error e ∧ (Failure.file e).Shown := by
  have hobeys := Validator.standard_obeys (Schema.document : FieldRules Char)
  have hshown := fun {e : Failure} (h : e.Diagnosed .standard) =>
    diagnosed_shown_iff .standard hobeys h
  refine ⟨hobeys, ?_, ?_, ?_⟩
  · obtain ⟨e, he⟩ := exists_error_of_isOk (x := Expression.parse "R".toList) (by decide +kernel)
    exact ⟨e, he, (hshown (.expression he)).1.mpr nofun⟩
  · have h := empty_impedance (50 : Float) .series
    exact ⟨_, h, (hshown (.circuit h)).1.mpr nofun⟩
  · obtain ⟨path, found, hload, hwholes⟩ := otherFields_layout
    have hfile := hshown (.file hload rfl)
    refine ⟨_, hload, hfile.1.mpr ?_⟩
    rintro _ _ ⟨rfl⟩
    exact ⟨hfile.2 otherFields _ path found hload rfl (by simp [TextKeys]), hwholes ▸ Value.short_nil⟩

/-- A number for a key next to the missing list of calculations. -/
theorem not_shown_number :
    ∃ e, CalculationFile.load ⟨"/calc/calcs.yaml".toList,
        .bytes (Text.utf8Bytes "1: 2\n".toList)⟩ = .error e ∧
      e.fault.isExplained = true ∧ ¬(Failure.file e).Shown := by
  obtain ⟨e, hload, he⟩ := exists_load_error
    ⟨"/calc/calcs.yaml".toList, .bytes (Text.utf8Bytes "1: 2\n".toList)⟩
    (fun e => e.fault.isExplained && !e.message.isOk) (by decide +kernel)
  obtain ⟨hexplained, hmessage⟩ := Bool.and_eq_true_iff.mp he
  refine ⟨e, hload, hexplained, ?_⟩
  rintro ⟨⟨m, hm⟩, -⟩
  rw [show e.message = .ok m from hm] at hmessage
  exact Bool.false_ne_true hmessage

end Immittance
