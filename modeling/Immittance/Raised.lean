import Immittance.Text.Letter

/-!
# Raised errors

What is raised by something that this library stands on: an error of some kinds, its own kind first and
those that it is one of behind it, with a message. Whoever handles errors does so by their kinds.
-/

set_option autoImplicit false

namespace Immittance

inductive ErrorKind where
  | type
  | value
  | overflow
  | zeroDivision
  | index
  | key
  | attribute
  | assertion
  | token
  | permission
  | decoding
  | yaml
  | quantity
  | dimensionality
  | undefinedUnit
  | definitionSyntax
  | named (name : String)
deriving DecidableEq, Repr

structure Raised (α : Type := Char) where
  kinds : List ErrorKind
  message : List α

namespace Raised

variable {α : Type}

def isOne (e : Raised α) (kind : ErrorKind) : Bool := e.kinds.contains kind

def isAny (e : Raised α) (kinds : List ErrorKind) : Bool := kinds.any e.isOne

def ofType [Letter α] (message : String) : Raised α := ⟨[.type], Letter.word message⟩

def ofValue [Letter α] (message : String) : Raised α := ⟨[.value], Letter.word message⟩

end Raised

end Immittance
