import FieldSSA.Felt.Decimal
import FieldSSA.Ty

namespace FieldSSA

inductive Scalar where
  | felt (value : Felt)
  | u32 (value : UInt32)
  | bool (value : Bool)
deriving DecidableEq, Inhabited

namespace Scalar

def ty : Scalar → Ty
  | felt _ => .felt252
  | u32 _ => .u32
  | bool _ => .bool

def zero : Ty → Scalar
  | .felt252 => felt .zero
  | .u32 => u32 0
  | .bool => bool false

def asFelt? : Scalar → Option Felt
  | felt v => some v
  | _ => none

def asU32? : Scalar → Option UInt32
  | u32 v => some v
  | _ => none

def asBool? : Scalar → Option Bool
  | bool v => some v
  | _ => none

/-- The text of an immediate: a plain number, truth values as `0` and `1`. -/
def immediateText : Scalar → String
  | felt v => v.toDecimal
  | u32 v => v.toNat.repr
  | bool v => if v then "1" else "0"

/-- The text of a register's content: words carry their type, truth values are spelled out. -/
def registerText : Scalar → String
  | felt v => v.toDecimal
  | u32 v => v.toNat.repr ++ "u32"
  | bool v => if v then "true" else "false"

end Scalar

end FieldSSA
