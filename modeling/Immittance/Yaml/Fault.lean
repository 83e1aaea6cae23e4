import Immittance.Document.Value

/-!
# What can be wrong with a YAML text

A text is malformed, or a scalar with a type of its own is no value of that type. The second kind of
fault says which. Texts here are made of characters: an escaped code point that is none is a fault of
its own. What exactly is malformed is not said.
-/

set_option autoImplicit false

namespace Immittance.Yaml

inductive Fault where
  | malformed
  | characterCode
  | notCharacter (code : Nat)
  | notInteger (base : Nat) (text : List Char)
  | integerTooLong (digits : Nat)
  | integerTooLarge
  | notFloat (text : List Char)
  | notTruth (text : List Char)
  | emptyNumber
  | notTimestamp
  | calendar (message : List Char)
deriving DecidableEq, Repr

def Fault.message : Fault → List Char
  | malformed => []
  | characterCode => "chr() arg not in range(0x110000)".toList
  | notCharacter code => "no character: ".toList ++ (toString code).toList
  | notInteger base text =>
    "invalid literal for int() with base ".toList ++ (toString base).toList ++ ':' :: ' ' ::
      (Text.quoted text).take 200
  | integerTooLong digits =>
    "Exceeds the limit (4300 digits) for integer string conversion: value has ".toList ++
      (toString digits).toList ++
      " digits; use sys.set_int_max_str_digits() to increase the limit".toList
  | integerTooLarge => "int too large to convert to float".toList
  | notFloat text => "could not convert string to float: ".toList ++ Text.quoted text
  | notTruth text => Text.quoted text
  | emptyNumber => "string index out of range".toList
  | notTimestamp => "'NoneType' object has no attribute 'groupdict'".toList
  | calendar message => message

def Fault.kinds : Fault → List ErrorKind
  | malformed => [.yaml]
  | notCharacter _ => [.named "no character"]
  | notTruth _ => [.key]
  | emptyNumber => [.index]
  | notTimestamp => [.attribute]
  | integerTooLarge => [.overflow]
  | characterCode | notInteger _ _ | integerTooLong _ | notFloat _ | calendar _ => [.value]

def Fault.raised (f : Fault) : Raised := ⟨f.kinds, f.message⟩

end Immittance.Yaml
