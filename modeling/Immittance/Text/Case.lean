import Immittance.Text.CaseTable

/-!
# Upper and lower case

A text is put into the other case letter by letter, after the full mappings: a letter may become
several. One letter looks at its neighbours: a capital sigma at the end of a word becomes a final
sigma.
-/

set_option autoImplicit false

namespace Immittance.Text

def mapCase (runs : List CaseRun) (long : List (Nat × List Nat)) (c : Char) : List Char :=
  match long.find? (·.1 == c.toNat) with
  | some (_, form) => form.map Char.ofNat
  | none =>
    match runs.find? (·.contains c.toNat) with
    | some r => [Char.ofNat ((c.toNat : Int) + r.shift).toNat]
    | none => [c]

def upperChar (c : Char) : List Char :=
  if c.toNat < 0x80 then [c.toUpper] else mapCase upperRuns upperLong c

def upper (s : List Char) : List Char := s.flatMap upperChar

def inRanges (ranges : List (Nat × Nat)) (c : Char) : Bool :=
  ranges.any fun r => r.1 ≤ c.toNat ∧ c.toNat ≤ r.2

def metByCase (s : List Char) : Bool :=
  match s.find? fun c => !inRanges caseIgnorable c with
  | some c => inRanges cased c
  | none => false

def lowerChar (before : List Char) (c : Char) (after : List Char) : List Char :=
  if c.toNat < 0x80 then [c.toLower]
  else if c = 'Σ' then [if metByCase before && !metByCase after then 'ς' else 'σ']
  else mapCase lowerRuns lowerLong c

def lowerFrom (before : List Char) : List Char → List Char
  | [] => []
  | c :: s => lowerChar before c s ++ lowerFrom (c :: before) s

def lower (s : List Char) : List Char := lowerFrom [] s

end Immittance.Text
