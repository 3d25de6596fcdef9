import FieldSSA.Text.Quoted

/-!
The binary form: little-endian numbers of fixed size, lengths of eight bytes before lists
and texts, and a number of four bytes in front of each alternative. A decoder takes what it
needs from the front of the input and leaves the rest.
-/

namespace FieldSSA

inductive DecodeError where
  | endOfInput
  | invalidUtf8
  | invalidBool (byte : UInt8)
  | variantIndex (found count : Nat)
  | hexLength (length : Nat)
  | hexCharacter (byte : UInt8) (index : Nat)
  | unreducedFelt (magnitude : Nat)
  | negativeZero
deriving DecidableEq

def DecodeError.message : DecodeError → String
  | endOfInput => "unexpected end of input"
  | invalidUtf8 => "text is not valid UTF-8"
  | invalidBool byte =>
    "invalid u8 while decoding bool, expected 0 or 1, found " ++ byte.toNat.repr
  | variantIndex found count =>
    "invalid value: integer `" ++ found.repr ++ "`, expected variant index 0 <= i < " ++
      count.repr
  | hexLength length =>
    "invalid length " ++ length.repr ++ ", expected a (both 0x-prefixed or not) hex string " ++
      "or byte array containing between (0; 32] bytes"
  | hexCharacter byte index =>
    "invalid hex character: " ++ (Char.ofNat byte.toNat).toString ++ ", at " ++ index.repr
  | unreducedFelt magnitude =>
    "felt magnitude " ++ magnitude.repr ++ " is not reduced modulo p"
  | negativeZero => "felt is negative zero"

abbrev Decoder := StateT (List UInt8) (Except DecodeError)

class Binary (α : Type) where
  encode : α → List UInt8
  decode : Decoder α

namespace Binary

/-- The `size` low bytes of a number, lowest first. -/
def littleEndian : (size : Nat) → Nat → List UInt8
  | 0, _ => []
  | size + 1, n => UInt8.ofNat n :: littleEndian size (n / 256)

def ofLittleEndian : List UInt8 → Nat
  | [] => 0
  | b :: rest => b.toNat + 256 * ofLittleEndian rest

def take (n : Nat) : Decoder (List UInt8) := fun input =>
  if n ≤ input.length then .ok (input.take n, input.drop n) else .error .endOfInput

def number (size : Nat) : Decoder Nat :=
  ofLittleEndian <$> take size

/-- A number of four bytes that chooses one of the alternatives. -/
def variant {α : Type} (alternatives : List (Decoder α)) : Decoder α := do
  let i ← number 4
  match alternatives[i]? with
  | some decoder => decoder
  | none => throw (.variantIndex i alternatives.length)

def variantIndex (i : Nat) : List UInt8 :=
  littleEndian 4 i

def repeated {α : Type} (decoder : Decoder α) : Nat → Decoder (List α)
  | 0 => return []
  | n + 1 => return (← decoder) :: (← repeated decoder n)

instance {α : Type} [Binary α] : Binary (List α) where
  encode xs := littleEndian 8 xs.length ++ xs.flatMap encode
  decode := do repeated decode (← number 8)

instance : Binary Bool where
  encode b := [if b then 1 else 0]
  decode := do
    match ← take 1 with
    | [0] => return false
    | [1] => return true
    | bytes => throw (.invalidBool (bytes.headD 0))

instance : Binary UInt32 where
  encode n := littleEndian 4 n.toNat
  decode := UInt32.ofNat <$> number 4

def utf8 (s : String) : List UInt8 :=
  s.toUTF8.data.toList

instance : Binary String where
  encode s := littleEndian 8 (utf8 s).length ++ utf8 s
  decode := do
    let bytes ← take (← number 8)
    match String.fromUTF8? ⟨bytes.toArray⟩ with
    | some s => return s
    | none => throw .invalidUtf8

end Binary

end FieldSSA
