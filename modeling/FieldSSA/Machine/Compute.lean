import FieldSSA.Instruction

namespace FieldSSA

inductive RunError where
  | argumentCount (expected found : Nat)
  | argumentType (index : Nat) (expected found : Ty)
  | undefinedValue (value : ValueId)
  | typeMismatch (value : ValueId) (expected found : Ty)
  | undefinedBlock (block : BlockId)
  | contractViolation (callee : Intrinsic) (found : List Ty)
  | divisionByZero (callee : Intrinsic)
  | stepLimitExceeded (limit : Nat)
deriving DecidableEq

namespace RunError

def message : RunError → String
  | argumentCount expected found =>
    "Argument count mismatch: expected " ++ expected.repr ++ ", found " ++ found.repr
  | argumentType index expected found =>
    "Argument " ++ index.repr ++ " has type " ++ found.name ++ ", expected " ++ expected.name
  | undefinedValue value => "Value " ++ value.text ++ " read before it was written"
  | typeMismatch value expected found =>
    "Value " ++ value.text ++ " holds a " ++ found.name ++ ", expected " ++ expected.name
  | undefinedBlock block => "Branch to missing block " ++ block.text
  | contractViolation callee found =>
    "Arguments " ++ Ty.tags found ++ " do not match the contract of " ++ callee.symbol
  | divisionByZero callee => "Division by zero in " ++ callee.symbol
  | stepLimitExceeded limit => "Step limit exceeded: " ++ limit.repr

/-- Errors that are laid to the arguments and not to the function. -/
def isInputError : RunError → Bool
  | argumentCount _ _ | argumentType _ _ _ | divisionByZero _ => true
  | _ => false

end RunError

namespace Intrinsic

/-- The results of a helper. Moves take values of any type. -/
def compute : Intrinsic → List Scalar → Except RunError (List Scalar)
  | dup _, [v] => .ok [v, v]
  | storeTemp _, [v] => .ok [v]
  | rename _, [v] => .ok [v]
  | felt252Mul, [.felt a, .felt b] => .ok [.felt (a * b)]
  | felt252Add, [.felt a, .felt b] => .ok [.felt (a + b)]
  | felt252Sub, [.felt a, .felt b] => .ok [.felt (a - b)]
  | u32OverflowingAdd, [.u32 a, .u32 b] =>
    .ok [.u32 (a + b), .bool (decide (UInt32.size ≤ a.toNat + b.toNat))]
  | u32OverflowingSub, [.u32 a, .u32 b] => .ok [.u32 (a - b), .bool (decide (a < b))]
  | u32Divmod, [.u32 a, .u32 b] =>
    if b = 0 then .error (.divisionByZero u32Divmod) else .ok [.u32 (a / b), .u32 (a % b)]
  | u32ToFelt252, [.u32 a] => .ok [.felt (.ofNat a.toNat)]
  | u32TryFromFelt252, [.felt a] =>
    .ok [.bool (decide (a.canonical < UInt32.size)), .u32 (UInt32.ofNat a.canonical)]
  | callee, args => .error (.contractViolation callee (args.map Scalar.ty))

end Intrinsic

namespace Scalar

/-- The number by which a value is ordered: field elements by their residue. -/
def orderKey : Scalar → Nat
  | felt v => v.canonical
  | u32 v => v.toNat
  | bool v => v.toNat

end Scalar

namespace Predicate

/-- The outcome of a comparison, if both sides have one type. Equality is that of values;
order is that of their keys. -/
def holds? (p : Predicate) (lhs rhs : Scalar) : Option Bool :=
  if lhs.ty ≠ rhs.ty then none
  else some <| match p with
    | eq => lhs == rhs
    | ne => lhs != rhs
    | ult => decide (lhs.orderKey < rhs.orderKey)
    | ule => decide (lhs.orderKey ≤ rhs.orderKey)

end Predicate

end FieldSSA
