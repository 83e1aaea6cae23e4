import Immittance.Decimal.Numeral
import Immittance.Expression.Issue
import Immittance.Expression.Spec

/-!
# Component tokens

A token is a kind and a value with a colon between them; blanks around each are ignored. The value is
a numeral of a finite double. Of several faults the first in this order is reported: no text, no
colon, no kind, no value, an unknown kind.
-/

set_option autoImplicit false

namespace Immittance

open Text

namespace Token

def value? (s : List Char) : Option Float :=
  match Decimal.read? s with
  | some d => if d.toFloat.isFinite then some d.toFloat else none
  | none => none

def readTrimmed (s : List Char) : Except ParseError (Part Float) :=
  match s.dropWhile (· != ':') with
  | [] => .error (Issue.tokenNoSeparator.error s [("token", s)])
  | _ :: after =>
    let word := trim (s.takeWhile (· != ':'))
    let number := trim after
    if word.isEmpty then .error (Issue.tokenEmptyKind.error s [("token", s)])
    else
      match value? number with
      | none => .error (Issue.tokenInvalidNumber.error s [("value", number)])
      | some v =>
        match Kind.ofWord? word with
        | none => .error (Issue.tokenUnknownKind.error s [("kind", word)])
        | some k => .ok ⟨k, v⟩

def read (token : List Char) : Except ParseError (Part Float) :=
  let s := trim token
  if s.isEmpty then .error (Issue.tokenEmpty.error token []) else readTrimmed s

end Token

end Immittance
