import Immittance.Text.Letter
import Immittance.Text.Printable

/-!
# Quoted texts

A text is shown between quotes so that nothing in it is invisible: the backslash, the quote and the
letters that are not printable are escaped. The quote is the apostrophe, unless the text holds an
apostrophe and no double quote.
-/

set_option autoImplicit false

namespace Immittance.Text

open Letter

def hexDigits (width n : Nat) : List Char :=
  let ds := Nat.toDigits 16 n
  List.replicate (width - ds.length) '0' ++ ds

def escapeCode (n : Nat) : List Char :=
  if n < 0x100 then '\\' :: 'x' :: hexDigits 2 n
  else if n < 0x10000 then '\\' :: 'u' :: hexDigits 4 n
  else '\\' :: 'U' :: hexDigits 8 n

def escape (quote c : Char) : List Char :=
  if c = '\\' ∨ c = quote then ['\\', c]
  else if c = '\t' then ['\\', 't']
  else if c = '\n' then ['\\', 'n']
  else if c = '\r' then ['\\', 'r']
  else if isPrintable c then [c]
  else escapeCode c.toNat

section
variable {α : Type} [Letter α]

def escapeLetter (quote : Char) (a : α) : List α :=
  match char? a with
  | some c => spell (escape quote c)
  | none => spell (escapeCode (code a))

def quoteFor (s : List α) : Char :=
  let cs := s.filterMap char?
  if cs.contains '\x27' && !cs.contains '\x22' then '\x22' else '\x27'

def quoted (s : List α) : List α :=
  let q := quoteFor s
  ofChar q :: s.flatMap (escapeLetter q) ++ [ofChar q]

end

end Immittance.Text
