/-!
Elements of the prime field of order `2^251 + 17 * 2^192 + 1`, kept as a sign and a
reduced magnitude. Reduction follows the sign of the dividend, so `-3` and `prime - 3` are
different elements with the same residue.
-/

namespace FieldSSA

/-- The order of the field, `2^251 + 17 * 2^192 + 1`. -/
def prime : Nat := 0x0800000000000011000000000000000000000000000000000000000000000001

def primeBits : Nat := 252

def productBits : Nat := 512

theorem prime_pos : 0 < prime := by decide

/-- A signed, reduced representative. Zero has one sign, so equality of elements is equality
of the integers that they stand for. -/
structure Felt where
  negative : Bool
  magnitude : Nat
  magnitude_lt : magnitude < prime
  magnitude_ne_zero : negative = true → magnitude ≠ 0
deriving DecidableEq

namespace Felt

/-- The remainder of `n`, or of `-n`, by the order, with the sign of the dividend. -/
def ofSignMagnitude (negative : Bool) (n : Nat) : Felt where
  negative := negative && n % prime != 0
  magnitude := n % prime
  magnitude_lt := Nat.mod_lt n prime_pos
  magnitude_ne_zero := by simp

def ofNat (n : Nat) : Felt :=
  ofSignMagnitude false n

def ofInt (z : Int) : Felt :=
  ofSignMagnitude (decide (z < 0)) z.natAbs

def zero : Felt := ofNat 0

def one : Felt := ofNat 1

/-- The integer that an element stands for. -/
def toInt (a : Felt) : Int :=
  if a.negative then -(a.magnitude : Int) else a.magnitude

/-- The residue in `[0, prime)`. -/
def canonical (a : Felt) : Nat :=
  if a.negative then prime - a.magnitude else a.magnitude

/-- Zero in representation, not in residue. -/
def isZero (a : Felt) : Bool :=
  a == zero

def congruent (a b : Felt) : Bool :=
  a.canonical == b.canonical

def toUInt64? (a : Felt) : Option UInt64 :=
  if a.negative || UInt64.size ≤ a.magnitude then none else some a.magnitude.toUInt64

protected def neg (a : Felt) : Felt :=
  ofSignMagnitude (!a.negative) a.magnitude

/-- Equal signs add magnitudes, different signs subtract the smaller from the larger. -/
protected def add (a b : Felt) : Felt :=
  if a.negative = b.negative then ofSignMagnitude a.negative (a.magnitude + b.magnitude)
  else if b.magnitude ≤ a.magnitude then
    ofSignMagnitude a.negative (a.magnitude - b.magnitude)
  else ofSignMagnitude b.negative (b.magnitude - a.magnitude)

protected def sub (a b : Felt) : Felt :=
  a.add b.neg

protected def mul (a b : Felt) : Felt :=
  ofSignMagnitude (a.negative != b.negative) (a.magnitude * b.magnitude)

instance : Neg Felt := ⟨Felt.neg⟩
instance : Add Felt := ⟨Felt.add⟩
instance : Sub Felt := ⟨Felt.sub⟩
instance : Mul Felt := ⟨Felt.mul⟩
instance : Inhabited Felt := ⟨zero⟩

end Felt

end FieldSSA
