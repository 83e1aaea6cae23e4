import Immittance.Expression.Shape
import Immittance.Expression.Token
import Immittance.Journal

/-!
# Expressions

An expression is read from the outside in: its shape first, then its members from left to right. The
first error is the answer. A member is shorter than the expression it stands in, so reading ends; how
deep it goes is not limited. Expressions are made of characters and not of any other letters.

What is noted in the journal on the way is told by a second recursion over the same shapes: a token
when it has been read, a group after all its members.
-/

set_option autoImplicit false

namespace Immittance

open Text

namespace Expression

def parse (s : List Char) : Except ParseError (Circuit Float) :=
  match _h : Shape.of s with
  | .error e => .error e
  | .ok (.token t) => (Token.read t).map .part
  | .ok (.group w members) => do
    let circuits ← members.attach.mapM fun m => parse m.1
    return .group w circuits
termination_by s.length
decreasing_by exact Shape.length_lt _h m.2

def tokenNote (token : List Char) (p : Part Float) : Record :=
  ⟨Level.debug, .tokens, "Parsed component token '".toList ++ trim token ++ "' as ".toList ++
    (Spec.ofPart p).text⟩

def groupNote (w : Wiring) (size : Nat) : Record :=
  ⟨Level.debug, .expression, "Parsed ".toList ++ w.word ++ " group with ".toList ++
    (toString size).toList ++ " child(ren)".toList⟩

/-- Whether an expression can be read, and what is noted on the way. The members of a group are read
up to the first that cannot be. -/
def journal (s : List Char) : Bool × List Record :=
  match _h : Shape.of s with
  | .error _ => (false, [])
  | .ok (.token t) =>
    match Token.read t with
    | .ok p => (true, [tokenNote t p])
    | .error _ => (false, [])
  | .ok (.group w members) =>
    let inner := members.attach.map fun m => journal m.1
    let heard := inner.takeWhile (·.1) ++ (inner.dropWhile (·.1)).take 1
    let complete := inner.all (·.1)
    (complete, heard.flatMap (·.2) ++ if complete then [groupNote w members.length] else [])
termination_by s.length
decreasing_by exact Shape.length_lt _h m.2

def notes (s : List Char) : List Record := (journal s).2

end Expression

end Immittance
