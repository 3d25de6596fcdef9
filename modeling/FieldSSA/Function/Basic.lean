import FieldSSA.Instruction

namespace FieldSSA

structure Signature where
  name : String
  params : List Ty
  returns : List Ty
deriving DecidableEq, Inhabited

def Signature.text (s : Signature) : String :=
  s.name ++ "(" ++ ", ".intercalate (s.params.map Ty.name) ++ ") -> (" ++
    ", ".intercalate (s.returns.map Ty.name) ++ ")"

/-- Straight-line code that ends in a terminator. Branch arguments bind to `params` in
position. -/
structure Block where
  id : BlockId
  params : List ValueId
  instructions : List Instruction
  terminator : Terminator
deriving DecidableEq, Inhabited

namespace Block

/-- Values that a block defines, in order. -/
def definitions (b : Block) : List ValueId :=
  b.params ++ b.instructions.flatMap Instruction.results

/-- Values that a block reads, in order. -/
def uses (b : Block) : List ValueId :=
  b.instructions.flatMap Instruction.operands ++ b.terminator.operands

def successors (b : Block) : List BlockId :=
  b.terminator.successors.map Edge.dest

end Block

structure Function where
  signature : Signature
  blocks : List Block
  valueTypes : List Ty
deriving DecidableEq, Inhabited

namespace Function

def name (f : Function) : String :=
  f.signature.name

def entry? (f : Function) : Option Block :=
  f.blocks.head?

/-- The block at the place that an identifier names, if it carries that identifier. -/
def block? (f : Function) (id : BlockId) : Option Block :=
  f.blocks[id.index]?.filter fun b => b.id == id

def valueType? (f : Function) (v : ValueId) : Option Ty :=
  f.valueTypes[v.index]?

def instructionCount (f : Function) : Nat :=
  (f.blocks.flatMap Block.instructions).length

def helpers (f : Function) : List Intrinsic :=
  Intrinsic.occurring (f.blocks.flatMap fun b => b.instructions.filterMap Instruction.callee?)

end Function

end FieldSSA
