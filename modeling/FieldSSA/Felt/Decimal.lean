import FieldSSA.Felt.Basic
import FieldSSA.Text.Quoted

namespace FieldSSA

structure LiteralError where
  literal : String
deriving DecidableEq

def LiteralError.message (e : LiteralError) : String :=
  "invalid felt literal: " ++ Text.quoted e.literal

namespace Felt

def toDecimal (a : Felt) : String :=
  (if a.negative then "-" else "") ++ a.magnitude.repr

/-- The least number that no literal denotes, `2^256`. -/
def literalBound : Nat := 0x10000000000000000000000000000000000000000000000000000000000000000

def digitsValue (digits : List Char) : Nat :=
  digits.foldl (fun n c => 10 * n + (c.toNat - '0'.toNat)) 0

def magnitude? (digits : List Char) : Option Nat :=
  if digits ≠ [] ∧ digits.all Char.isDigit ∧ digitsValue digits < literalBound then
    some (digitsValue digits)
  else none

/-- Read a literal. The sign stays unless the reduced magnitude is zero. -/
def ofDecimal (literal : String) : Except LiteralError Felt :=
  let (negative, digits) := match literal.toList with
    | '-' :: digits => (true, digits)
    | digits => (false, digits)
  match magnitude? digits with
  | some n => .ok (ofSignMagnitude negative n)
  | none => .error ⟨literal⟩

end Felt

end FieldSSA
