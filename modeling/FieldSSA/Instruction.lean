import FieldSSA.Intrinsic
import FieldSSA.Scalar

namespace FieldSSA

structure ValueId where
  index : Nat
deriving DecidableEq, Inhabited

def ValueId.text (v : ValueId) : String :=
  "%" ++ v.index.repr

structure BlockId where
  index : Nat
deriving DecidableEq, Inhabited

namespace BlockId

def entry : BlockId := ⟨0⟩

def isEntry (b : BlockId) : Bool :=
  b == entry

def text (b : BlockId) : String :=
  "bb" ++ b.index.repr

end BlockId

inductive Predicate where
  | eq
  | ne
  | ult
  | ule
deriving DecidableEq, Inhabited

namespace Predicate

def all : List Predicate := [eq, ne, ult, ule]

def mnemonic : Predicate → String
  | eq => "eq"
  | ne => "ne"
  | ult => "ult"
  | ule => "ule"

end Predicate

inductive Instruction where
  | const (result : ValueId) (imm : Scalar)
  | cmp (result : ValueId) (pred : Predicate) (lhs rhs : ValueId)
  | call (callee : Intrinsic) (args results : List ValueId)
deriving DecidableEq, Inhabited

namespace Instruction

def results : Instruction → List ValueId
  | const result _ => [result]
  | cmp result _ _ _ => [result]
  | call _ _ results => results

def operands : Instruction → List ValueId
  | const _ _ => []
  | cmp _ _ lhs rhs => [lhs, rhs]
  | call _ args _ => args

def callee? : Instruction → Option Intrinsic
  | call callee _ _ => some callee
  | _ => none

end Instruction

/-- A branch destination with the values for its parameters. -/
structure Edge where
  dest : BlockId
  args : List ValueId
deriving DecidableEq, Inhabited

inductive Terminator where
  | br (edge : Edge)
  | condBr (cond : ValueId) (onTrue onFalse : Edge)
  | ret (values : List ValueId)
deriving DecidableEq, Inhabited

namespace Terminator

/-- Outgoing edges, the one for a true condition first. -/
def successors : Terminator → List Edge
  | br edge => [edge]
  | condBr _ onTrue onFalse => [onTrue, onFalse]
  | ret _ => []

def operands : Terminator → List ValueId
  | br edge => edge.args
  | condBr cond onTrue onFalse => cond :: onTrue.args ++ onFalse.args
  | ret values => values

end Terminator

end FieldSSA
