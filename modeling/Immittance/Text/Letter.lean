/-!
# Letters

A text is a sequence of letters. A letter is known by its code, and the characters are letters with
their own codes. There may be others: documents can hold code points that are no characters.
-/

set_option autoImplicit false

namespace Immittance

class Letter (α : Type) where
  code : α → Nat
  ofChar : Char → α
  code_injective : ∀ {a b : α}, code a = code b → a = b
  code_ofChar : ∀ c : Char, code (ofChar c) = c.toNat

instance : Letter Char where
  code := Char.toNat
  ofChar := id
  code_injective h := Char.ext (UInt32.toNat_inj.mp h)
  code_ofChar _ := rfl

abbrev CodePoint := Fin 0x110000

theorem toNat_lt_codePoints (c : Char) : c.toNat < 0x110000 := by
  have h : c.toNat.isValidChar := c.valid
  simp only [Nat.isValidChar] at h
  omega

instance : Letter CodePoint where
  code := Fin.val
  ofChar c := ⟨c.toNat, toNat_lt_codePoints c⟩
  code_injective h := Fin.ext h
  code_ofChar _ := rfl

namespace Letter

variable {α : Type} [Letter α]

def char? (a : α) : Option Char :=
  if (code a).isValidChar then some (Char.ofNat (code a)) else none

def spell (s : List Char) : List α := s.map ofChar

def word (s : String) : List α := spell s.toList

def same (s t : List α) : Bool := s.map code == t.map code

def before (s t : List α) : Bool := decide (s.map code < t.map code)

end Letter

end Immittance
