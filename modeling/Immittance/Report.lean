import Immittance.Decimal.Style
import Immittance.Text.Lines

/-!
# Diagnostic reports

A report shows an error to a user: a heading, the kind of error, where it happened, the details and a
suggestion, closed by a rule. Lines of the details and of the suggestion are indented by two blanks.
What is absent or empty in the context is left out.

A frequency in a report has the unit prefix that leaves one to three digits before the point.
-/

set_option autoImplicit false

namespace Immittance

namespace Frequency

def prefixes : List (Int × List Char) :=
  [(-30, ['q']), (-27, ['r']), (-24, ['y']), (-21, ['z']), (-18, ['a']), (-15, ['f']), (-12, ['p']),
   (-9, ['n']), (-6, ['µ']), (-3, ['m']), (0, []), (3, ['k']), (6, ['M']), (9, ['G']), (12, ['T']),
   (15, ['P']), (18, ['E']), (21, ['Z']), (24, ['Y']), (27, ['R']), (30, ['Q'])]

def power (f : Float) : Int :=
  max (-30) (min 30 (3 * Binary.floor (f.log10 / 3)))

def text (f : Float) : List Char :=
  if f.isFinite && 0 < f then
    let p := power f
    let size := if p = 0 then f else f * (1 / Decimal.nearest 1 p)
    significantText 6 size ++ ' ' :: (prefixes.lookup p).getD [] ++ ['H', 'z']
  else significantText 6 f ++ [' ', 'H', 'z']

end Frequency

structure Report (α : Type := Char) where
  kind : List α
  details : List α
  suggestion : List α
  element : List α
  sourceFile : List α
  userInput : List α
  frequency : Option Float

namespace Report

open Letter

def heading : String :=
  "================ zcalc-core: Actionable Diagnostic Report ================"

def rule : String :=
  "=========================================================================="

section
variable {α : Type} [Letter α]

def indented (s : List α) : List (List α) := (Text.lines s).map fun l => spell [' ', ' '] ++ l

def labelled (label : String) (value : List α) : List (List α) :=
  if value.isEmpty then [] else [word label ++ value]

def contextLines (r : Report α) : List (List α) :=
  labelled "Element:        " r.element ++
  labelled "Source File:    " r.sourceFile ++
  (if r.userInput.isEmpty then []
   else [word "User Input:     '" ++ r.userInput ++ spell ['\x27']]) ++
  (match r.frequency with
   | none => []
   | some f => [word "Frequency:      " ++ spell (Frequency.text f)])

def entries (r : Report α) : List (List α) :=
  [spell ['\n'], word heading, word "Error Type:     " ++ r.kind] ++ r.contextLines ++
  (word "\nDetails:" :: indented r.details) ++
  (if r.suggestion.isEmpty then [] else word "\nSuggestion:" :: indented r.suggestion) ++
  [word rule]

def text (r : Report α) : List α := (spell ['\n']).intercalate r.entries

def spelled (r : Report) : Report α :=
  ⟨spell r.kind, spell r.details, spell r.suggestion, spell r.element, spell r.sourceFile,
   spell r.userInput, r.frequency⟩

end

end Report

end Immittance
