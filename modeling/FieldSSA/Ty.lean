namespace FieldSSA

inductive Ty where
  | felt252
  | u32
  | bool
deriving DecidableEq, Inhabited

namespace Ty

def all : List Ty := [felt252, u32, bool]

def name : Ty → String
  | felt252 => "felt252"
  | u32 => "u32"
  | bool => "bool"

def ofName? (s : String) : Option Ty :=
  all.find? fun ty => ty.name == s

/-- The name in the lists of types that errors and definitions show. -/
def tag : Ty → String
  | felt252 => "Felt252"
  | u32 => "U32"
  | bool => "Bool"

def tags (types : List Ty) : String :=
  "[" ++ ", ".intercalate (types.map tag) ++ "]"

/-- Bits of a value when field elements are held in `width` bits. -/
def storageBits (width : Nat) : Ty → Nat
  | felt252 => width
  | u32 => 32
  | bool => 1

def lowered (width : Nat) (ty : Ty) : String :=
  "i" ++ (ty.storageBits width).repr

/-- The type of a list of results: nothing, one integer type, or a tuple in braces. -/
def loweredTuple (width : Nat) : List Ty → String
  | [] => "void"
  | [ty] => ty.lowered width
  | types => "\x7b" ++ ", ".intercalate (types.map (lowered width)) ++ "\x7d"

end Ty

end FieldSSA
