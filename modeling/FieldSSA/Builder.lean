import FieldSSA.Error

/-!
Functions under construction. Blocks are created open, filled while they are current, and
terminated once. An operation that fails leaves the builder as it was.
-/

namespace FieldSSA

structure OpenBlock where
  params : List ValueId
  instructions : List Instruction := []
  terminator : Option Terminator := none
deriving DecidableEq

structure Builder where
  signature : Signature
  blocks : List OpenBlock
  valueTypes : List Ty
  current : Option BlockId
deriving DecidableEq

/-- Building steps: they may fail, and what was built before the failure stays. -/
abbrev Build := ExceptT IrError (StateM Builder)

namespace Builder

def block? (b : Builder) (id : BlockId) : Option OpenBlock :=
  b.blocks[id.index]?

def valueType? (b : Builder) (v : ValueId) : Option Ty :=
  b.valueTypes[v.index]?

def isTerminated (b : Builder) (id : BlockId) : Bool :=
  ((b.block? id).bind OpenBlock.terminator).isSome

def entryParams (b : Builder) : List ValueId :=
  (b.blocks.head?.map OpenBlock.params).getD []

def fresh (b : Builder) (types : List Ty) : List ValueId :=
  (List.range types.length).map fun i => ⟨b.valueTypes.length + i⟩

def addBlock (b : Builder) (params : List Ty) : Builder :=
  { b with
    blocks := b.blocks ++ [{ params := b.fresh params }]
    valueTypes := b.valueTypes ++ params }

/-- The builder of a signature: the entry block takes its parameters and is current. -/
def ofSignature (signature : Signature) : Builder :=
  let b : Builder := { signature, blocks := [], valueTypes := [], current := none }
  { b.addBlock signature.params with current := some .entry }

def append (b : Builder) (id : BlockId) (i : Instruction) (types : List Ty) : Builder :=
  { b with
    blocks := b.blocks.modify id.index fun blk =>
      { blk with instructions := blk.instructions ++ [i] }
    valueTypes := b.valueTypes ++ types }

/-- Terminate a block. No block is current then. -/
def close (b : Builder) (id : BlockId) (t : Terminator) : Builder :=
  { b with
    blocks := b.blocks.modify id.index fun blk => { blk with terminator := some t }
    current := none }

/-- The blocks in order, if all are terminated. -/
def sealBlocks : (next : Nat) → List OpenBlock → Except IrError (List Block)
  | _, [] => .ok []
  | next, blk :: rest =>
    match blk.terminator with
    | none => .error (.builder (.missingTerminator ⟨next⟩))
    | some t => do
      return ⟨⟨next⟩, blk.params, blk.instructions, t⟩ :: (← sealBlocks (next + 1) rest)

def sealed (b : Builder) : Except IrError Function := do
  return ⟨b.signature, ← sealBlocks 0 b.blocks, b.valueTypes⟩

def finishWithReport (b : Builder) : Except IrError (Function × Report) := do
  (← b.sealed).verified

def finish (b : Builder) : Except IrError Function :=
  Prod.fst <$> b.finishWithReport

end Builder

namespace Build

def createBlock (params : List Ty) : Build BlockId := do
  let b ← get
  set (b.addBlock params)
  return ⟨b.blocks.length⟩

def block (id : BlockId) : Build OpenBlock := do
  match (← get).block? id with
  | some blk => return blk
  | none => throw (.builder (.unknownBlock id))

def blockParams (id : BlockId) : Build (List ValueId) :=
  OpenBlock.params <$> block id

def switchTo (id : BlockId) : Build Unit := do
  let _ ← block id
  modify fun b => { b with current := some id }

def openBlock : Build BlockId := do
  let b ← get
  match b.current with
  | none => throw (.builder .noCurrentBlock)
  | some id =>
    if b.isTerminated id then throw (.builder (.blockTerminated id)) else return id

def push (i : Instruction) (types : List Ty) : Build Unit := do
  let id ← openBlock
  modify (·.append id i types)

def nextValue : Build ValueId :=
  return ⟨(← get).valueTypes.length⟩

def const (imm : Scalar) : Build ValueId := do
  let result ← nextValue
  push (.const result imm) [imm.ty]
  return result

def cmp (pred : Predicate) (lhs rhs : ValueId) : Build ValueId := do
  let result ← nextValue
  push (.cmp result pred lhs rhs) [.bool]
  return result

/-- Call a helper. The results have the types of its contract. -/
def call (callee : Intrinsic) (args : List ValueId) : Build (List ValueId) := do
  let results := (← get).fresh callee.results
  push (.call callee args results) callee.results
  return results

def dup (ty : Ty) (v : ValueId) : Build (ValueId × ValueId) := do
  let first ← nextValue
  let _ ← call (.dup ty) [v]
  return (first, ⟨first.index + 1⟩)

def storeTemp (ty : Ty) (v : ValueId) : Build ValueId := do
  let result ← nextValue
  let _ ← call (.storeTemp ty) [v]
  return result

def rename (ty : Ty) (v : ValueId) : Build ValueId := do
  let result ← nextValue
  let _ ← call (.rename ty) [v]
  return result

def terminate (t : Terminator) : Build Unit := do
  let id ← openBlock
  modify (·.close id t)

def br (edge : Edge) : Build Unit := do
  let _ ← block edge.dest
  terminate (.br edge)

def condBr (cond : ValueId) (onTrue onFalse : Edge) : Build Unit := do
  let _ ← block onTrue.dest
  let _ ← block onFalse.dest
  terminate (.condBr cond onTrue onFalse)

def ret (values : List ValueId) : Build Unit :=
  terminate (.ret values)

end Build

end FieldSSA
