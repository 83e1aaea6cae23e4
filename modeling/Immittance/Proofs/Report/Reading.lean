import Mathlib
import Immittance.Proofs.Report.Rows

/-!
# Reading reports

What a report says is read off its rows from the top: a value is behind its label if the next row has
the label, and the details and the suggestion are the rows that begin with two blanks. Labels begin
with different letters, and what ends the context or one of the two lists is an empty row or the
closing rule, so nothing is taken for anything else. Two reports with one text say the same.
-/

set_option autoImplicit false

namespace Immittance.Report

open Letter Text

/-! ## The rows of a report -/

structure OneRowed (r : Report) : Prop where
  kind : OneRow r.kind
  element : OneRow r.element
  sourceFile : OneRow r.sourceFile
  userInput : OneRow r.userInput

def field (label : String) (value : Option (List Char)) : List (List Char) :=
  (value.map (label.toList ++ ·)).toList

def given (s : List Char) : Option (List Char) := if s.isEmpty then none else some s

theorem given_getD (s : List Char) : (given s).getD [] = s := by
  cases s <;> rfl

theorem labelled_eq_field (label : String) (s : List Char) : labelled label s = field label (given s) := by
  rw [labelled, word_char]
  cases s <;> rfl

theorem contextLines_eq (r : Report) : r.contextLines =
    field "Element:        " (given r.element) ++
    (field "Source File:    " (given r.sourceFile) ++
    (field "User Input:     '" ((given r.userInput).map (· ++ ['\x27'])) ++
    field "Frequency:      " (r.frequency.map Frequency.text))) := by
  have huser : (if r.userInput.isEmpty then []
      else ["User Input:     '".toList ++ r.userInput ++ ['\x27']]) =
      field "User Input:     '" ((given r.userInput).map (· ++ ['\x27'])) := by
    cases h : r.userInput with
    | nil => rfl
    | cons c s => exact congrArg (· :: []) (List.append_assoc _ _ _)
  rw [contextLines]
  simp only [labelled_eq_field, word_char, spell_char]
  rw [huser, List.append_assoc, List.append_assoc]
  cases r.frequency <;> rfl

def topRows (r : Report) : List (List Char) :=
  [] :: [] :: heading.toList :: field "Error Type:     " (some r.kind)

def titled (title : String) (s : List Char) : List (List Char) :=
  [] :: title.toList :: indented s

def suggestionRows (s : List Char) : List (List Char) :=
  if s.isEmpty then [] else titled "Suggestion:" s

def lowerRows (r : Report) : List (List Char) :=
  titled "Details:" r.details ++ (suggestionRows r.suggestion ++ [rule.toList])

theorem oneRow_of_mem_field {label : String} {value : Option (List Char)}
    (hl : OneRow label.toList) (hv : ∀ s ∈ value, OneRow s) :
    ∀ row ∈ field label value, OneRow row := by
  intro row h
  cases value with
  | none => cases h
  | some s =>
    obtain rfl : row = label.toList ++ s := List.mem_singleton.mp h
    exact oneRow_append.mpr ⟨hl, hv s rfl⟩

theorem oneRow_of_mem_given {s t : List Char} (hs : OneRow s) (h : t ∈ given s) : OneRow t := by
  cases s with
  | nil => cases h
  | cons c s => exact Option.some.inj h ▸ hs

theorem oneRow_of_mem_contextLines {r : Report} (h : r.OneRowed) :
    ∀ row ∈ r.contextLines, OneRow row := by
  rw [contextLines_eq]
  simp only [List.forall_mem_append]
  refine ⟨?element, ?sourceFile, ?userInput, ?frequency⟩
  case element =>
    exact oneRow_of_mem_field (by decide) fun _ => oneRow_of_mem_given h.element
  case sourceFile =>
    exact oneRow_of_mem_field (by decide) fun _ => oneRow_of_mem_given h.sourceFile
  case userInput =>
    refine oneRow_of_mem_field (by decide) fun s hs => ?_
    obtain ⟨t, ht, rfl⟩ := Option.map_eq_some_iff.mp hs
    exact oneRow_append.mpr ⟨oneRow_of_mem_given h.userInput ht, by decide⟩
  case frequency =>
    refine oneRow_of_mem_field (by decide) fun s hs => ?_
    obtain ⟨f, -, rfl⟩ := Option.map_eq_some_iff.mp hs
    exact oneRow_frequency f

theorem oneRow_of_mem_indented {s : List Char} : ∀ row ∈ indented s, OneRow row := by
  intro row h
  obtain ⟨l, hl, rfl⟩ := List.mem_map.mp h
  exact oneRow_cons.mpr ⟨by decide, oneRow_cons.mpr ⟨by decide, oneRow_of_mem_lines hl⟩⟩

theorem flatMap_rows_titled (title : String) (h : OneRow title.toList) (s : List Char) :
    (('\n' :: title.toList) :: indented s).flatMap rows = titled title s := by
  rw [List.flatMap_cons, rows_cons_of_oneRow h, flatMap_rows oneRow_of_mem_indented]
  rfl

theorem entries_eq (r : Report) : r.entries =
    [['\n'], heading.toList, "Error Type:     ".toList ++ r.kind] ++ r.contextLines ++
      ("\nDetails:".toList :: indented r.details) ++
      (if r.suggestion.isEmpty then [] else "\nSuggestion:".toList :: indented r.suggestion) ++
      [rule.toList] := by
  rw [entries]
  simp only [word_char, spell_char]

theorem rows_text {r : Report} (h : r.OneRowed) : rows r.text =
    r.topRows ++ (r.contextLines ++ r.lowerRows) := by
  have htop : [['\n'], heading.toList, "Error Type:     ".toList ++ r.kind].flatMap rows =
      r.topRows := by
    rw [List.flatMap_cons, List.flatMap_cons, List.flatMap_singleton,
      rows_cons_of_oneRow List.not_mem_nil, rows_of_oneRow (s := heading.toList) (by decide),
      rows_of_oneRow (oneRow_append.mpr ⟨by decide, h.kind⟩)]
    rfl
  have hsuggestion : (if r.suggestion.isEmpty then []
      else "\nSuggestion:".toList :: indented r.suggestion).flatMap rows =
      suggestionRows r.suggestion := by
    rw [suggestionRows]
    cases r.suggestion.isEmpty with
    | true => rfl
    | false => exact flatMap_rows_titled "Suggestion:" (by decide) r.suggestion
  have hdetails : ("\nDetails:".toList :: indented r.details).flatMap rows =
      titled "Details:" r.details := flatMap_rows_titled "Details:" (by decide) r.details
  have hrule : [rule.toList].flatMap rows = [rule.toList] :=
    (List.flatMap_singleton _ _).trans (rows_of_oneRow (by decide))
  have hentries : r.entries ≠ [] :=
    List.append_ne_nil_of_right_ne_nil _ (List.cons_ne_nil (word rule) [])
  rw [text, spell_char, rows_intercalate hentries, entries_eq, List.flatMap_append, List.flatMap_append,
    List.flatMap_append, List.flatMap_append, htop, hsuggestion, hdetails, hrule,
    flatMap_rows (oneRow_of_mem_contextLines h), List.append_assoc, List.append_assoc,
    List.append_assoc, lowerRows]

/-! ## Rows of the details and of the suggestion -/

def isIndented (row : List Char) : Bool := [' ', ' '].isPrefixOf row

/-- The rows that the details and the suggestion do not stand in. Of the two it only tells whether
there is a suggestion. -/
def frame (r : Report) : List (List Char) :=
  r.topRows ++ (r.contextLines ++ ([[], "Details:".toList] ++
    ((if r.suggestion.isEmpty then [] else [[], "Suggestion:".toList]) ++ [rule.toList])))

theorem head?_of_mem_field {label : String} {value : Option (List Char)} {c : Char}
    (hl : label.toList.head? = some c) : ∀ row ∈ field label value, row.head? = some c := by
  intro row h
  cases value with
  | none => cases h
  | some s =>
    obtain rfl : row = label.toList ++ s := List.mem_singleton.mp h
    rw [List.head?_append, hl, Option.some_or]

theorem not_isIndented {row : List Char} (h : row.head? ≠ some ' ') : isIndented row = false := by
  cases row with
  | nil => rfl
  | cons c row =>
    have hc : (' ' == c) = false := beq_eq_false_iff_ne.mpr fun e => h (congrArg some e.symm)
    rw [isIndented, List.isPrefixOf, hc, Bool.false_and]

theorem isIndented_of_mem_indented {s : List Char} : ∀ row ∈ indented s, isIndented row = true := by
  intro row h
  obtain ⟨l, -, rfl⟩ := List.mem_map.mp h
  rfl

theorem not_isIndented_of_mem_contextLines {r : Report} :
    ∀ row ∈ r.contextLines, isIndented row = false := by
  have hfield : ∀ (label : String) (value : Option (List Char)) (c : Char),
      label.toList.head? = some c → c ≠ ' ' → ∀ row ∈ field label value, isIndented row = false := by
    intro label value c hl hc row h
    apply not_isIndented
    rw [head?_of_mem_field hl row h]
    exact fun k => hc (Option.some.inj k)
  rw [contextLines_eq]
  simp only [List.forall_mem_append]
  exact ⟨hfield _ _ 'E' rfl (by decide), hfield _ _ 'S' rfl (by decide),
    hfield _ _ 'U' rfl (by decide), hfield _ _ 'F' rfl (by decide)⟩

theorem filter_of_not_indented {rs : List (List Char)} (h : ∀ row ∈ rs, isIndented row = false) :
    rs.filter isIndented = [] ∧ rs.filter (!isIndented ·) = rs := by
  constructor
  · exact List.filter_eq_nil_iff.mpr fun row hrow => by simp [h row hrow]
  · exact List.filter_eq_self.mpr fun row hrow => by simp [h row hrow]

theorem filter_titled (title : String) (h : isIndented title.toList = false) (s : List Char) :
    (titled title s).filter isIndented = indented s ∧
      (titled title s).filter (!isIndented ·) = [[], title.toList] := by
  have hrow := @isIndented_of_mem_indented s
  have hself : (indented s).filter isIndented = indented s := List.filter_eq_self.mpr hrow
  have hnone : (indented s).filter (!isIndented ·) = [] :=
    List.filter_eq_nil_iff.mpr fun row h => by simp [hrow row h]
  have hempty : isIndented [] = false := rfl
  rw [titled, List.filter_cons, List.filter_cons, List.filter_cons, List.filter_cons, h, hempty,
    hself, hnone]
  exact ⟨rfl, rfl⟩

theorem filter_suggestionRows (s : List Char) :
    (suggestionRows s).filter isIndented = indented s ∧
      (suggestionRows s).filter (!isIndented ·) =
        if s.isEmpty then [] else [[], "Suggestion:".toList] := by
  cases s with
  | nil => exact ⟨rfl, rfl⟩
  | cons c s => exact filter_titled "Suggestion:" rfl (c :: s)

/-- The rows that begin with two blanks are the lines of the details and of the suggestion, and the
rest is the frame. -/
theorem filter_rows_text {r : Report} (h : r.OneRowed) :
    (rows r.text).filter isIndented = indented r.details ++ indented r.suggestion ∧
      (rows r.text).filter (!isIndented ·) = r.frame := by
  have htop : ∀ row ∈ r.topRows, isIndented row = false := by
    rw [topRows]
    simp only [List.forall_mem_cons]
    refine ⟨rfl, rfl, rfl, fun row hrow => not_isIndented ?_⟩
    rw [head?_of_mem_field (c := 'E') rfl row hrow]
    decide
  have htop := filter_of_not_indented htop
  have hcontext := filter_of_not_indented (not_isIndented_of_mem_contextLines (r := r))
  have hdetails := filter_titled "Details:" rfl r.details
  have hsuggestion := filter_suggestionRows r.suggestion
  have hrule := filter_of_not_indented (List.forall_mem_singleton.mpr (rfl : isIndented rule.toList = false))
  rw [rows_text h, lowerRows, frame]
  simp only [List.filter_append]
  rw [htop.1, hcontext.1, hdetails.1, hsuggestion.1, hrule.1, htop.2, hcontext.2, hdetails.2,
    hsuggestion.2, hrule.2, List.append_nil]
  exact ⟨rfl, rfl⟩

/-! ## Reading from the top -/

structure Content where
  kind : List Char
  element : List Char
  sourceFile : List Char
  userInput : List Char
  frequency : Option (List Char)
  details : List (List Char)
  suggestion : List (List Char)

def content (r : Report) : Content :=
  ⟨r.kind, r.element, r.sourceFile, r.userInput, r.frequency.map Frequency.text,
   Text.lines r.details, Text.lines r.suggestion⟩

def takeLabelled (label : String) : List (List Char) → Option (List Char) × List (List Char)
  | [] => (none, [])
  | row :: rest =>
    if label.toList.isPrefixOf row then (some (row.drop label.toList.length), rest)
    else (none, row :: rest)

def takeIndented (rs : List (List Char)) : List (List Char) × List (List Char) :=
  ((rs.takeWhile isIndented).map (·.drop 2), rs.dropWhile isIndented)

def Content.ofRows (rs : List (List Char)) : Content :=
  let (kind, rs) := takeLabelled "Error Type:     " (rs.drop 3)
  let (element, rs) := takeLabelled "Element:        " rs
  let (sourceFile, rs) := takeLabelled "Source File:    " rs
  let (userInput, rs) := takeLabelled "User Input:     '" rs
  let (frequency, rs) := takeLabelled "Frequency:      " rs
  let (details, rs) := takeIndented (rs.drop 2)
  let (suggestion, _) := takeIndented (rs.drop 2)
  ⟨kind.getD [], element.getD [], sourceFile.getD [], (userInput.map List.dropLast).getD [],
   frequency, details, suggestion⟩

def Content.ofText (s : List Char) : Content := ofRows (rows s)

def initial (rs : List (List Char)) : Option Char := rs.head?.bind List.head?

theorem initial_field (label : String) {c d : Char} {rest : List (List Char)}
    (hl : label.toList.head? = some d) (hne : d ≠ c) (h : initial rest ≠ some c)
    (value : Option (List Char)) : initial (field label value ++ rest) ≠ some c := by
  cases value with
  | none => exact h
  | some s =>
    show (label.toList ++ s).head? ≠ some c
    rw [List.head?_append, hl, Option.some_or]
    exact fun k => hne (Option.some.inj k)

theorem takeLabelled_row (label : String) (s : List Char) (rest : List (List Char)) :
    takeLabelled label ((label.toList ++ s) :: rest) = (some s, rest) := by
  rw [takeLabelled, if_pos (List.isPrefixOf_iff_prefix.mpr (List.prefix_append _ _)), List.drop_left]

/-- A value is taken from behind its label, and nothing from a row with another letter in front. -/
theorem takeLabelled_field (label : String) {c : Char} {rest : List (List Char)}
    (hl : label.toList.head? = some c) (h : initial rest ≠ some c) (value : Option (List Char)) :
    takeLabelled label (field label value ++ rest) = (value, rest) := by
  cases value with
  | some s => exact takeLabelled_row label s rest
  | none =>
    show takeLabelled label rest = (none, rest)
    cases rest with
    | nil => rfl
    | cons row rest =>
      rw [takeLabelled, if_neg]
      intro hprefix
      obtain ⟨s, rfl⟩ := List.isPrefixOf_iff_prefix.mp hprefix
      apply h
      show (label.toList ++ s).head? = some c
      rw [List.head?_append, hl, Option.some_or]

theorem getD_dropLast_given (s : List Char) :
    (((given s).map (· ++ ['\x27'])).map List.dropLast).getD [] = s := by
  cases s with
  | nil => rfl
  | cons c s => exact List.dropLast_concat

theorem takeIndented_indented (s : List Char) {rest : List (List Char)}
    (h : initial rest ≠ some ' ') : takeIndented (indented s ++ rest) = (Text.lines s, rest) := by
  have hrest : rest.takeWhile isIndented = [] ∧ rest.dropWhile isIndented = rest := by
    cases rest with
    | nil => exact ⟨rfl, rfl⟩
    | cons row rest =>
      have hrow : isIndented row = false := not_isIndented h
      rw [List.takeWhile_cons, List.dropWhile_cons, hrow]
      exact ⟨rfl, rfl⟩
  rw [takeIndented, List.takeWhile_append_of_pos isIndented_of_mem_indented,
    List.dropWhile_append_of_pos isIndented_of_mem_indented, hrest.1, hrest.2, List.append_nil,
    indented, List.map_map]
  exact congrArg (·, rest) (List.map_id _)

theorem takeIndented_details (r : Report) : takeIndented (r.lowerRows.drop 2) =
    (Text.lines r.details, suggestionRows r.suggestion ++ [rule.toList]) := by
  apply takeIndented_indented
  cases r.suggestion with
  | nil => decide
  | cons c s => exact nofun

theorem takeIndented_suggestion (s : List Char) :
    (takeIndented ((suggestionRows s ++ [rule.toList]).drop 2)).1 = Text.lines s := by
  cases s with
  | nil => rfl
  | cons c s =>
    have hrule : initial [rule.toList] ≠ some ' ' := by decide
    exact congrArg Prod.fst (takeIndented_indented (c :: s) hrule)

/-- What a report says is read off its text. -/
theorem ofText_text {r : Report} (h : r.OneRowed) : Content.ofText r.text = r.content := by
  -- an empty row stands below the context, and every label in it has a letter of its own
  have hbelow : ∀ c, initial r.lowerRows ≠ some c := fun c => nofun
  have hfrequency := fun c (hf : 'F' ≠ c) =>
    initial_field "Frequency:      " rfl hf (hbelow c) (r.frequency.map Frequency.text)
  have huser := fun c (hu : 'U' ≠ c) (hf : 'F' ≠ c) =>
    initial_field "User Input:     '" rfl hu (hfrequency c hf) ((given r.userInput).map (· ++ ['\x27']))
  have hsource := fun c (hs : 'S' ≠ c) (hu : 'U' ≠ c) (hf : 'F' ≠ c) =>
    initial_field "Source File:    " rfl hs (huser c hu hf) (given r.sourceFile)
  have takeElement := takeLabelled_field "Element:        " rfl
    (hsource 'E' (by decide) (by decide) (by decide)) (given r.element)
  have takeSource := takeLabelled_field "Source File:    " rfl
    (huser 'S' (by decide) (by decide)) (given r.sourceFile)
  have takeUser := takeLabelled_field "User Input:     '" rfl
    (hfrequency 'U' (by decide)) ((given r.userInput).map (· ++ ['\x27']))
  have takeFrequency := takeLabelled_field "Frequency:      " rfl
    (hbelow 'F') (r.frequency.map Frequency.text)
  have takeKind : takeLabelled "Error Type:     " ((r.topRows ++ (r.contextLines ++ r.lowerRows)).drop 3) =
      (some r.kind, r.contextLines ++ r.lowerRows) := takeLabelled_row "Error Type:     " r.kind _
  rw [Content.ofText, rows_text h, Content.ofRows, takeKind, contextLines_eq, List.append_assoc,
    List.append_assoc, List.append_assoc]
  simp only [takeElement, takeSource, takeUser, takeFrequency, takeIndented_details,
    takeIndented_suggestion, given_getD, getD_dropLast_given]
  rfl

/-- The text of a report depends on nothing but what is read off it. -/
theorem text_of_content {r r' : Report} (h : r.content = r'.content) : r.text = r'.text := by
  obtain ⟨kind, details, suggestion, element, sourceFile, userInput, frequency⟩ := r
  obtain ⟨kind', details', suggestion', element', sourceFile', userInput', frequency'⟩ := r'
  simp only [content, Content.mk.injEq] at h
  obtain ⟨rfl, rfl, rfl, rfl, hfrequency, hdetails, hsuggestion⟩ := h
  have hcontext : contextLines ⟨kind, details, suggestion, element, sourceFile, userInput, frequency⟩ =
      contextLines ⟨kind, details', suggestion', element, sourceFile, userInput, frequency'⟩ := by
    rw [contextLines_eq, contextLines_eq, hfrequency]
  have hempty : suggestion.isEmpty = suggestion'.isEmpty := by
    rw [Bool.eq_iff_iff, List.isEmpty_iff, List.isEmpty_iff, ← lines_eq_nil_iff, hsuggestion,
      lines_eq_nil_iff]
  rw [text, text, entries, entries, hcontext, indented, indented, indented, indented, hdetails,
    hsuggestion, hempty]

/-- Two reports have one text exactly if they say the same, line by line, with frequencies told by
their texts. What a report says can be read off its text. No line of the details or of the suggestion
is taken for a heading, a line of the context or the closing rule: they are the rows that begin with
two blanks, and the other rows are what they are without the two, but for the heading of the
suggestion. -/
theorem text_read_back {r r' : Report} (h : r.OneRowed) (h' : r'.OneRowed) :
    (r.text = r'.text ↔
      r.kind = r'.kind ∧ r.element = r'.element ∧ r.sourceFile = r'.sourceFile ∧
      r.userInput = r'.userInput ∧
      r.frequency.map Frequency.text = r'.frequency.map Frequency.text ∧
      Text.lines r.details = Text.lines r'.details ∧
      Text.lines r.suggestion = Text.lines r'.suggestion) ∧
    Content.ofText r.text = r.content ∧
    (rows r.text).filter isIndented = indented r.details ++ indented r.suggestion ∧
    (rows r.text).filter (!isIndented ·) = r.frame := by
  have hcontent : r.text = r'.text ↔ r.content = r'.content := by
    constructor
    · intro htext
      rw [← ofText_text h, ← ofText_text h', htext]
    · exact text_of_content
  obtain ⟨hindented, hframe⟩ := filter_rows_text h
  refine ⟨hcontent.trans ?_, ofText_text h, hindented, hframe⟩
  rw [content, content, Content.mk.injEq]

/-- Details that look like a suggestion and the end of a report are not taken for them. -/
theorem text_read_back_disguised :
    let r : Report := ⟨"Invalid Circuit".toList, "a\n\nSuggestion:\n  b".toList, [], "R(1.0)".toList, [],
      [], some 50⟩
    let r' : Report := ⟨"Invalid Circuit".toList, "a".toList, "b".toList, "R(1.0)".toList, [], [],
      some 50⟩
    r.OneRowed ∧ r'.OneRowed ∧ r.text ≠ r'.text := by
  intro r r'
  have h : r.OneRowed := ⟨by decide, by decide, by decide, by decide⟩
  have h' : r'.OneRowed := ⟨by decide, by decide, by decide, by decide⟩
  refine ⟨h, h', fun htext => ?_⟩
  have hsuggestion := ((text_read_back h h').1.mp htext).2.2.2.2.2.2
  exact absurd hsuggestion (by decide)

end Immittance.Report
