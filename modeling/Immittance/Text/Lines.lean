import Immittance.Text.Letter

/-!
# Lines

A text is cut into lines at every line end: the line feed, the carriage return, the two together,
the vertical tabulator, the form feed, the separators of files, groups and records, the next-line
control, and the separators of lines and of paragraphs.
-/

set_option autoImplicit false

namespace Immittance.Text

open Letter

def lineEnds : List Char :=
  ['\n', '\r', '\x0b', '\x0c', '\x1c', '\x1d', '\x1e', '\x85', '\u2028', '\u2029']

section
variable {α : Type} [Letter α]

def isLineEnd (a : α) : Bool := (char? a).any lineEnds.contains

def linesFrom (line : List α) : List α → List (List α)
  | [] => if line.isEmpty then [] else [line.reverse]
  | [a] => if isLineEnd a then line.reverse :: linesFrom [] [] else linesFrom (a :: line) []
  | a :: b :: s =>
    if char? a = some '\r' ∧ char? b = some '\n' then line.reverse :: linesFrom [] s
    else if isLineEnd a then line.reverse :: linesFrom [] (b :: s)
    else linesFrom (a :: line) (b :: s)

def lines (s : List α) : List (List α) := linesFrom [] s

end

end Immittance.Text
