import FieldSSA.Assembly.Function

namespace FieldSSA

namespace Helper

inductive Operand where
  | reg (name : String)
  | lit (n : Nat)
deriving DecidableEq

inductive Extension where
  | sext
  | zext
  | trunc
deriving DecidableEq

inductive Arithmetic where
  | add
  | sub
  | mul
  | srem
  | udiv
  | urem
deriving DecidableEq

inductive Ordering where
  | ult
  | slt
deriving DecidableEq

/-- One line of a body. Widths are in bits. -/
inductive Line where
  | extend (dest : String) (op : Extension) (source : Nat) (x : Operand) (target : Nat)
  | arith (dest : String) (op : Arithmetic) (width : Nat) (x y : Operand)
  | cmp (dest : String) (op : Ordering) (width : Nat) (x y : Operand)
  | select (dest : String) (cond : Operand) (width : Nat) (x y : Operand)
  | ret (values : List (Nat × Operand))
deriving DecidableEq

def Operand.text : Operand → String
  | reg name => "%" ++ name
  | lit n => n.repr

def Extension.mnemonic : Extension → String
  | sext => "sext"
  | zext => "zext"
  | trunc => "trunc"

def Arithmetic.mnemonic : Arithmetic → String
  | add => "add"
  | sub => "sub"
  | mul => "mul"
  | srem => "srem"
  | udiv => "udiv"
  | urem => "urem"

def Ordering.mnemonic : Ordering → String
  | ult => "ult"
  | slt => "slt"

def typed (width : Nat) (x : Operand) : String :=
  "i" ++ width.repr ++ " " ++ x.text

def Line.text : Line → String
  | extend dest op source x target =>
    "%" ++ dest ++ " = " ++ op.mnemonic ++ " " ++ typed source x ++ " to i" ++ target.repr
  | arith dest op width x y =>
    "%" ++ dest ++ " = " ++ op.mnemonic ++ " " ++ typed width x ++ ", " ++ y.text
  | cmp dest op width x y =>
    "%" ++ dest ++ " = cmp " ++ op.mnemonic ++ " " ++ typed width x ++ ", " ++ y.text
  | select dest cond width x y =>
    "%" ++ dest ++ " = select " ++ typed 1 cond ++ ", " ++ typed width x ++ ", " ++
      typed width y
  | ret values => "ret " ++ commaList (values.map fun (width, x) => typed width x)

def paramNames : List String := ["a", "b"]

/-- The body of a helper when field elements have `felt` bits and products `wide` bits. -/
def body (felt wide : Nat) : Intrinsic → List Line
  | .dup ty => [.ret [(ty.storageBits felt, .reg "a"), (ty.storageBits felt, .reg "a")]]
  | .storeTemp ty | .rename ty => [.ret [(ty.storageBits felt, .reg "a")]]
  | .felt252Mul =>
    [.extend "a_wide" .sext felt (.reg "a") wide,
      .extend "b_wide" .sext felt (.reg "b") wide,
      .arith "product" .mul wide (.reg "a_wide") (.reg "b_wide"),
      .arith "reduced" .srem wide (.reg "product") (.lit prime),
      .extend "result" .trunc wide (.reg "reduced") felt,
      .ret [(felt, .reg "result")]]
  | .felt252Add =>
    [.arith "sum" .add felt (.reg "a") (.reg "b"),
      .arith "result" .srem felt (.reg "sum") (.lit prime),
      .ret [(felt, .reg "result")]]
  | .felt252Sub =>
    [.arith "diff" .sub felt (.reg "a") (.reg "b"),
      .arith "result" .srem felt (.reg "diff") (.lit prime),
      .ret [(felt, .reg "result")]]
  | .u32OverflowingAdd =>
    [.arith "result" .add 32 (.reg "a") (.reg "b"),
      .cmp "overflow" .ult 32 (.reg "result") (.reg "a"),
      .ret [(32, .reg "result"), (1, .reg "overflow")]]
  | .u32OverflowingSub =>
    [.arith "result" .sub 32 (.reg "a") (.reg "b"),
      .cmp "overflow" .ult 32 (.reg "a") (.reg "b"),
      .ret [(32, .reg "result"), (1, .reg "overflow")]]
  | .u32Divmod =>
    [.arith "quotient" .udiv 32 (.reg "a") (.reg "b"),
      .arith "remainder" .urem 32 (.reg "a") (.reg "b"),
      .ret [(32, .reg "quotient"), (32, .reg "remainder")]]
  | .u32ToFelt252 =>
    [.extend "result" .zext 32 (.reg "a") felt,
      .ret [(felt, .reg "result")]]
  | .u32TryFromFelt252 =>
    [.cmp "negative" .slt felt (.reg "a") (.lit 0),
      .arith "shifted" .add felt (.reg "a") (.lit prime),
      .select "canonical" (.reg "negative") felt (.reg "shifted") (.reg "a"),
      .cmp "fits" .ult felt (.reg "canonical") (.lit UInt32.size),
      .extend "low" .trunc felt (.reg "canonical") 32,
      .ret [(1, .reg "fits"), (32, .reg "low")]]

end Helper

namespace Intrinsic

def headText (i : Intrinsic) (width : Nat) : String :=
  let params := (i.params.zip Helper.paramNames).map fun (ty, name) =>
    ty.lowered width ++ " %" ++ name
  Ty.loweredTuple width i.results ++ " @" ++ i.symbol ++ "(" ++ commaList params ++ ")"

def declaration (i : Intrinsic) (c : Config) : String :=
  "declare " ++ i.headText c.width

def definition (i : Intrinsic) (c : Config) : String :=
  unlines (("define " ++ i.headText c.width ++ " \x7b") :: "entry:" ::
    ((Helper.body c.width c.wideWidth i).map fun line => "  " ++ line.text) ++ ["\x7d"])

end Intrinsic

end FieldSSA
