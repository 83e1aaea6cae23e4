import Immittance.Raised
import Immittance.Text.Quoted

/-!
# Decoding UTF-8

Bytes are decoded in blocks. A sequence that a block cuts short is carried over to the next one. A
fault names the reason and the bytes at fault, counted from the start of the block, or of the sequence
that was carried over in front of it.
-/

set_option autoImplicit false

namespace Immittance.Text

inductive DecodeReason where
  | start
  | continuation
  | cutShort
deriving DecidableEq, Repr

def DecodeReason.message : DecodeReason → String
  | start => "invalid start byte"
  | continuation => "invalid continuation byte"
  | cutShort => "unexpected end of data"

structure DecodeFault where
  reason : DecodeReason
  byte : Nat
  position : Nat
  count : Nat
deriving DecidableEq, Repr

def DecodeFault.message (f : DecodeFault) : List Char :=
  let place :=
    if f.count = 1 then
      "byte 0x".toList ++ hexDigits 2 f.byte ++ " in position ".toList ++ (toString f.position).toList
    else
      "bytes in position ".toList ++ (toString f.position).toList ++ '-' ::
        (toString (f.position + f.count - 1)).toList
  "'utf-8' codec can't decode ".toList ++ place ++ ':' :: ' ' :: f.reason.message.toList

def DecodeFault.raised (f : DecodeFault) : Raised := ⟨[.decoding, .value], f.message⟩

inductive Decoded where
  | char (c : Char) (rest : List Nat)
  | fault (reason : DecodeReason) (count : Nat)
  | partly

def isContinuation (b : Nat) : Bool := 0x80 ≤ b && b < 0xc0

/-- Whether a second byte can follow a first one: no longer form than needed, no surrogate, nothing
beyond the last character. -/
def canFollow (first second : Nat) : Bool :=
  isContinuation second &&
    !(first == 0xe0 && second < 0xa0) && !(first == 0xed && 0xa0 ≤ second) &&
    !(first == 0xf0 && second < 0x90) && !(first == 0xf4 && 0x90 ≤ second)

def decodeTwo (a : Nat) : List Nat → Decoded
  | [] => .partly
  | b :: rest =>
    if isContinuation b then .char (Char.ofNat ((a - 0xc0) * 64 + (b - 0x80))) rest
    else .fault .continuation 1

def decodeThree (a : Nat) : List Nat → Decoded
  | [] => .partly
  | b :: rest =>
    if !canFollow a b then .fault .continuation 1
    else
      match rest with
      | [] => .partly
      | c :: rest =>
        if isContinuation c then
          .char (Char.ofNat (((a - 0xe0) * 64 + (b - 0x80)) * 64 + (c - 0x80))) rest
        else .fault .continuation 2

def decodeFour (a : Nat) : List Nat → Decoded
  | [] => .partly
  | b :: rest =>
    if !canFollow a b then .fault .continuation 1
    else
      match rest with
      | [] => .partly
      | c :: rest =>
        if !isContinuation c then .fault .continuation 2
        else
          match rest with
          | [] => .partly
          | d :: rest =>
            if isContinuation d then
              .char (Char.ofNat
                ((((a - 0xf0) * 64 + (b - 0x80)) * 64 + (c - 0x80)) * 64 + (d - 0x80))) rest
            else .fault .continuation 3

def decodeFirst (a : Nat) (rest : List Nat) : Decoded :=
  if a < 0x80 then .char (Char.ofNat a) rest
  else if 0xc2 ≤ a ∧ a < 0xe0 then decodeTwo a rest
  else if 0xe0 ≤ a ∧ a < 0xf0 then decodeThree a rest
  else if 0xf0 ≤ a ∧ a < 0xf5 then decodeFour a rest
  else .fault .start 1

def decodeBlock (fuel position : Nat) (done : List Char) (bytes : List Nat) :
    Except DecodeFault (List Char × List Nat) :=
  match fuel, bytes with
  | _, [] => .ok (done, [])
  | 0, bytes => .ok (done, bytes)
  | fuel + 1, a :: rest =>
    match decodeFirst a rest with
    | .char c r => decodeBlock fuel (position + c.utf8Size) (c :: done) r
    | .fault reason count => .error ⟨reason, a, position, count⟩
    | .partly => .ok (done, a :: rest)

def blockSize : Nat := 8192

def decodeBlocks (fuel : Nat) (done : List Char) (carried bytes : List Nat) :
    Except DecodeFault (List Char) :=
  match fuel, bytes with
  | 0, _ => .ok done.reverse
  | _, [] =>
    match carried with
    | [] => .ok done.reverse
    | a :: rest => .error ⟨.cutShort, a, 0, rest.length + 1⟩
  | fuel + 1, bytes => do
    let data := carried ++ bytes.take blockSize
    let (done, carried) ← decodeBlock data.length 0 done data
    decodeBlocks fuel done carried (bytes.drop blockSize)

def decodeUtf8 (bytes : List Nat) : Except DecodeFault (List Char) :=
  decodeBlocks (bytes.length + 1) [] [] bytes

end Immittance.Text
