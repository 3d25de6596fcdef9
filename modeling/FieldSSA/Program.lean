import FieldSSA.Function.Basic

namespace FieldSSA

structure Program where
  functions : List Function := []
deriving DecidableEq, Inhabited

namespace Program

def function? (p : Program) (name : String) : Option Function :=
  p.functions.find? fun f => f.name == name

def names (p : Program) : List String :=
  p.functions.map Function.name

def helpers (p : Program) : List Intrinsic :=
  Intrinsic.occurring (p.functions.flatMap Function.helpers)

end Program

end FieldSSA
