import FieldSSA.Binary.Felt
import FieldSSA.Function.Basic

namespace FieldSSA

namespace Binary

instance : Binary Ty where
  encode
    | .felt252 => variantIndex 0
    | .u32 => variantIndex 1
    | .bool => variantIndex 2
  decode := variant [return .felt252, return .u32, return .bool]

instance : Binary Scalar where
  encode
    | .felt v => variantIndex 0 ++ encode v
    | .u32 v => variantIndex 1 ++ encode v
    | .bool v => variantIndex 2 ++ encode v
  decode := variant [.felt <$> decode, .u32 <$> decode, .bool <$> decode]

instance : Binary Intrinsic where
  encode
    | .dup ty => variantIndex 0 ++ encode ty
    | .storeTemp ty => variantIndex 1 ++ encode ty
    | .rename ty => variantIndex 2 ++ encode ty
    | .felt252Mul => variantIndex 3
    | .felt252Add => variantIndex 4
    | .felt252Sub => variantIndex 5
    | .u32OverflowingAdd => variantIndex 6
    | .u32OverflowingSub => variantIndex 7
    | .u32Divmod => variantIndex 8
    | .u32ToFelt252 => variantIndex 9
    | .u32TryFromFelt252 => variantIndex 10
  decode := variant
    [.dup <$> decode, .storeTemp <$> decode, .rename <$> decode, return .felt252Mul,
      return .felt252Add, return .felt252Sub, return .u32OverflowingAdd,
      return .u32OverflowingSub, return .u32Divmod, return .u32ToFelt252,
      return .u32TryFromFelt252]

instance : Binary ValueId where
  encode v := littleEndian 4 v.index
  decode := ValueId.mk <$> number 4

instance : Binary BlockId where
  encode b := littleEndian 4 b.index
  decode := BlockId.mk <$> number 4

instance : Binary Predicate where
  encode
    | .eq => variantIndex 0
    | .ne => variantIndex 1
    | .ult => variantIndex 2
    | .ule => variantIndex 3
  decode := variant [return .eq, return .ne, return .ult, return .ule]

instance : Binary Instruction where
  encode
    | .const result imm => variantIndex 0 ++ encode result ++ encode imm
    | .cmp result pred lhs rhs =>
      variantIndex 1 ++ encode result ++ encode pred ++ encode lhs ++ encode rhs
    | .call callee args results =>
      variantIndex 2 ++ encode callee ++ encode args ++ encode results
  decode := variant
    [return .const (← decode) (← decode),
      return .cmp (← decode) (← decode) (← decode) (← decode),
      return .call (← decode) (← decode) (← decode)]

instance : Binary Edge where
  encode e := encode e.dest ++ encode e.args
  decode := return ⟨← decode, ← decode⟩

instance : Binary Terminator where
  encode
    | .br edge => variantIndex 0 ++ encode edge
    | .condBr cond onTrue onFalse =>
      variantIndex 1 ++ encode cond ++ encode onTrue ++ encode onFalse
    | .ret values => variantIndex 2 ++ encode values
  decode := variant
    [return .br (← decode), return .condBr (← decode) (← decode) (← decode),
      return .ret (← decode)]

instance : Binary Block where
  encode b :=
    encode b.id ++ encode b.params ++ encode b.instructions ++ encode b.terminator
  decode := return ⟨← decode, ← decode, ← decode, ← decode⟩

instance : Binary Signature where
  encode s := encode s.name ++ encode s.params ++ encode s.returns
  decode := return ⟨← decode, ← decode, ← decode⟩

instance : Binary Function where
  encode f := encode f.signature ++ encode f.blocks ++ encode f.valueTypes
  decode := return ⟨← decode, ← decode, ← decode⟩

end Binary

end FieldSSA
