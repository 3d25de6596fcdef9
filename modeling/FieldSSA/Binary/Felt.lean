import FieldSSA.Binary.Basic
import FieldSSA.Felt.Basic

namespace FieldSSA

namespace Binary

/-- The text of a magnitude: `0x` and its digits without leading zeros. -/
def magnitudeText (n : Nat) : String :=
  "0x" ++ Text.hexDigits n

def nibble? (b : UInt8) : Option Nat :=
  let n := b.toNat
  if '0'.toNat ≤ n ∧ n ≤ '9'.toNat then some (n - '0'.toNat)
  else if 'a'.toNat ≤ n ∧ n ≤ 'f'.toNat then some (n - 'a'.toNat + 10)
  else if 'A'.toNat ≤ n ∧ n ≤ 'F'.toNat then some (n - 'A'.toNat + 10)
  else none

def isBlank (b : UInt8) : Bool :=
  b == 0x20 || b == 0x09 || b == 0x0a || b == 0x0d

/-- Join digits to bytes, highest first. A byte is complete when a digit arrives with
`half` set, and takes the digit before it, `high`, as its upper half; a last digit without
a partner is dropped. `index` is the place of the next character. -/
def joinDigits (index : Nat) (half : Bool) (high value : Nat) :
    List UInt8 → Except DecodeError Nat
  | [] => .ok value
  | b :: rest =>
    match nibble? b with
    | some low =>
      if half then joinDigits (index + 1) false low (256 * value + (16 * high + low)) rest
      else joinDigits (index + 1) true low value rest
    | none =>
      if isBlank b then joinDigits (index + 1) half high value rest
      else .error (.hexCharacter b index)

/-- Digits after the mark. An odd count starts in the middle of a byte. -/
def ofDigits (start : Nat) (digits : List UInt8) : Except DecodeError Nat :=
  if digits.length = 0 ∨ 64 < digits.length then .error (.hexLength digits.length)
  else joinDigits start (digits.length % 2 == 1) 0 0 digits

/-- The magnitude that a text denotes, with or without the mark `0x`. -/
def ofMagnitudeText (s : String) : Except DecodeError Nat :=
  match utf8 s with
  | 0x30 :: 0x78 :: digits => ofDigits 2 digits
  | digits => ofDigits 0 digits

end Binary

/-- The element with this sign and magnitude, if it is one as it stands. -/
def Felt.ofReduced (negative : Bool) (n : Nat) : Except DecodeError Felt :=
  if hn : n < prime then
    if hz : negative = true ∧ n = 0 then .error .negativeZero
    else .ok ⟨negative, n, hn, fun h h0 => hz ⟨h, h0⟩⟩
  else .error (.unreducedFelt n)

instance : Binary Felt where
  encode a := Binary.encode a.negative ++ Binary.encode (Binary.magnitudeText a.magnitude)
  decode := do
    let negative ← Binary.decode
    let text : String ← Binary.decode
    let n ← Binary.ofMagnitudeText text
    Felt.ofReduced negative n

end FieldSSA
