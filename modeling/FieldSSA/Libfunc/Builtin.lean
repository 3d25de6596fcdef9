import FieldSSA.Libfunc.Basic

namespace FieldSSA

namespace Libfunc

def builtinFelt : List Libfunc :=
  [ofIntrinsic "felt252_mul" .felt252Mul,
    ofIntrinsic "felt252_add" .felt252Add,
    ofIntrinsic "felt252_sub" .felt252Sub,
    zeroTest "felt252_is_zero" .felt252]

def builtinU32 : List Libfunc :=
  [ofIntrinsic "u32_overflowing_add" .u32OverflowingAdd,
    ofIntrinsic "u32_overflowing_sub" .u32OverflowingSub,
    comparison "u32_eq" .u32 .eq,
    comparison "u32_lt" .u32 .ult,
    comparison "u32_le" .u32 .ule,
    zeroTest "u32_is_zero" .u32,
    ofIntrinsic "u32_safe_divmod" .u32Divmod,
    ofIntrinsic "u32_to_felt252" .u32ToFelt252,
    ofIntrinsic "u32_try_from_felt252" .u32TryFromFelt252]

def builtin : List Libfunc :=
  builtinFelt ++ builtinU32

end Libfunc

end FieldSSA
