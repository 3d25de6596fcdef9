import FieldSSA.Ty

namespace FieldSSA

inductive Intrinsic where
  | dup (ty : Ty)
  | storeTemp (ty : Ty)
  | rename (ty : Ty)
  | felt252Mul
  | felt252Add
  | felt252Sub
  | u32OverflowingAdd
  | u32OverflowingSub
  | u32Divmod
  | u32ToFelt252
  /-- Whether the residue fits a word, and its low word. -/
  | u32TryFromFelt252
deriving DecidableEq, Inhabited

namespace Intrinsic

def fixed : List Intrinsic :=
  [felt252Mul, felt252Add, felt252Sub, u32OverflowingAdd, u32OverflowingSub, u32Divmod,
    u32ToFelt252, u32TryFromFelt252]

/-- Every helper, in the order in which sets of helpers are listed. -/
def catalog : List Intrinsic :=
  Ty.all.map dup ++ Ty.all.map storeTemp ++ Ty.all.map rename ++ fixed

def movesOf (ty : Ty) : List Intrinsic :=
  [dup ty, storeTemp ty, rename ty]

def symbol : Intrinsic → String
  | dup ty => "dup<" ++ ty.name ++ ">"
  | storeTemp ty => "store_temp<" ++ ty.name ++ ">"
  | rename ty => "rename<" ++ ty.name ++ ">"
  | felt252Mul => "felt252_mul"
  | felt252Add => "felt252_add"
  | felt252Sub => "felt252_sub"
  | u32OverflowingAdd => "u32_overflowing_add"
  | u32OverflowingSub => "u32_overflowing_sub"
  | u32Divmod => "u32_divmod"
  | u32ToFelt252 => "u32_to_felt252"
  | u32TryFromFelt252 => "u32_try_from_felt252"

def ofGeneric? (name : List Char) (ty : Ty) : Option Intrinsic :=
  if name = "dup".toList then some (dup ty)
  else if name = "store_temp".toList then some (storeTemp ty)
  else if name = "rename".toList then some (rename ty)
  else none

/-- Read a symbol. A symbol that ends in `>` is cut at its first `<` into a name and a
type; any other symbol is looked up. -/
def ofSymbol? (s : String) : Option Intrinsic :=
  match s.toList.reverse with
  | '>' :: body =>
    let cs := body.reverse
    match cs.dropWhile (· != '<') with
    | _ :: ty => (Ty.ofName? (String.ofList ty)).bind (ofGeneric? (cs.takeWhile (· != '<')))
    | [] => none
  | _ => fixed.find? fun i => i.symbol == s

def params : Intrinsic → List Ty
  | dup ty | storeTemp ty | rename ty => [ty]
  | felt252Mul | felt252Add | felt252Sub => [.felt252, .felt252]
  | u32OverflowingAdd | u32OverflowingSub | u32Divmod => [.u32, .u32]
  | u32ToFelt252 => [.u32]
  | u32TryFromFelt252 => [.felt252]

def results : Intrinsic → List Ty
  | dup ty => [ty, ty]
  | storeTemp ty | rename ty => [ty]
  | felt252Mul | felt252Add | felt252Sub => [.felt252]
  | u32OverflowingAdd | u32OverflowingSub => [.u32, .bool]
  | u32Divmod => [.u32, .u32]
  | u32ToFelt252 => [.felt252]
  | u32TryFromFelt252 => [.bool, .u32]

def isMove : Intrinsic → Bool
  | dup _ | storeTemp _ | rename _ => true
  | _ => false

def occurring (calls : List Intrinsic) : List Intrinsic :=
  catalog.filter calls.contains

end Intrinsic

end FieldSSA
