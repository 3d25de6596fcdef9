import FieldSSA.Assembly.Helper

namespace FieldSSA

namespace Helper

structure Word where
  width : Nat
  bits : BitVec width
deriving DecidableEq

abbrev Registers := List (String × Word)

/-- The value of an operand at a width. A register has one width only. -/
def Operand.eval (rs : Registers) (width : Nat) : Operand → Option (BitVec width)
  | reg name =>
    (rs.lookup name).bind fun w =>
      if h : w.width = width then some (w.bits.cast h) else none
  | lit n => some (BitVec.ofNat width n)

def Extension.eval {source : Nat} (target : Nat) (x : BitVec source) : Extension → BitVec target
  | sext => x.signExtend target
  | zext | trunc => x.setWidth target

/-- Division by zero has no value. -/
def Arithmetic.eval {width : Nat} (x y : BitVec width) : Arithmetic → Option (BitVec width)
  | add => some (x + y)
  | sub => some (x - y)
  | mul => some (x * y)
  | srem => if y = 0 then none else some (x.srem y)
  | udiv => if y = 0 then none else some (x.udiv y)
  | urem => if y = 0 then none else some (x.umod y)

def Ordering.eval {width : Nat} (x y : BitVec width) : Ordering → Bool
  | ult => x.ult y
  | slt => x.slt y

def Line.assign (rs : Registers) : Line → Option (String × Word)
  | extend dest op source x target => do
    return (dest, ⟨target, op.eval target (← x.eval rs source)⟩)
  | arith dest op width x y => do
    return (dest, ⟨width, ← op.eval (← x.eval rs width) (← y.eval rs width)⟩)
  | cmp dest op width x y => do
    return (dest, ⟨1, BitVec.ofBool (op.eval (← x.eval rs width) (← y.eval rs width))⟩)
  | select dest cond width x y => do
    let c ← cond.eval rs 1
    let a ← x.eval rs width
    let b ← y.eval rs width
    return (dest, ⟨width, if c = 1 then a else b⟩)
  | ret _ => none

def evalLines : Registers → List Line → Option (List Word)
  | _, [] => none
  | rs, .ret values :: _ => values.mapM fun (width, x) => return ⟨width, ← x.eval rs width⟩
  | rs, line :: rest => do evalLines ((← line.assign rs) :: rs) rest

end Helper

def Scalar.toWord (width : Nat) : Scalar → Helper.Word
  | felt v => ⟨width, BitVec.ofInt width v.toInt⟩
  | u32 v => ⟨32, v.toBitVec⟩
  | bool v => ⟨1, BitVec.ofBool v⟩

def Intrinsic.evalBody (i : Intrinsic) (c : Config) (args : List Scalar) :
    Option (List Helper.Word) :=
  Helper.evalLines (Helper.paramNames.zip (args.map (Scalar.toWord c.width)))
    (Helper.body c.width c.wideWidth i)

end FieldSSA
