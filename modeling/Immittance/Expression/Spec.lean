import Immittance.Circuit
import Immittance.Decimal.Style
import Immittance.Text.Blank
import Immittance.Text.Case

/-!
# Kinds in words and component specifications

A kind is written as one of three words or by its first letter, in any case. A specification is a
value with the kind that was recognised, if any.
-/

set_option autoImplicit false

namespace Immittance

open Text

def Kind.ofWord? (word : List Char) : Option Kind :=
  let w := upper (trim word)
  if w = ['I', 'N', 'D', 'U', 'C', 'T', 'O', 'R'] then some .inductor
  else
    match w with
    | 'R' :: _ => some .resistor
    | 'C' :: _ => some .capacitor
    | 'L' :: _ => some .inductor
    | _ => none

structure Spec where
  kind : Option Kind
  value : Float

namespace Spec

def ofWord (word : List Char) (value : Float) : Spec := ⟨Kind.ofWord? word, value⟩

def ofPart (p : Part Float) : Spec := ⟨some p.kind, p.value⟩

def letter (s : Spec) : List Char :=
  match s.kind with
  | some k => [k.letter]
  | none => []

def text (s : Spec) : List Char := s.letter ++ ':' :: shortestText s.value

def noUnit (s : Spec) : List Char :=
  "Component spec '".toList ++ s.text ++ "' has no valid kind, so it has no unit.".toList

def quantity? (s : Spec) : Option (Float × String) :=
  s.kind.map fun k => (s.value, k.unit)

end Spec

end Immittance
