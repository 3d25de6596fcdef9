import FieldSSA.Libfunc.Registry
import FieldSSA.Lowering.Error

/-!
Lowering of operations to blocks. Labels are declared first, so branches may go forward;
blocks stand in the order of their labels, after the entry block. The variables in scope are
those of the open block.
-/

namespace FieldSSA

structure LowerState where
  workspace : Workspace
  labels : List (Label × BlockId) := []
  scope : List (Var × Handle) := []
deriving DecidableEq

/-- What lowering leaves behind. -/
structure Summary where
  blocks : Nat
  handles : Nat
  slots : Nat
  live : Nat
deriving DecidableEq

/-- What lowering a function reads: the name for its errors, and the libfuncs. -/
structure LowerContext where
  function : String
  registry : Registry

/-- Lowering steps: they may fail, and what was built before the failure stays. -/
abbrev Lower := ReaderT LowerContext (ExceptT EmitError (StateM LowerState))

namespace Lower

def malformed {α : Type} (opIndex : Nat) (defect : Defect) : Lower α := do
  throw (.malformed (← read).function opIndex defect)

def build {α : Type} (steps : Build α) : Lower α := fun c s =>
  let (result, builder) := steps s.workspace.builder
  (result.mapError (.ir c.function), { s with workspace := { s.workspace with builder } })

/-- The error that an error on the handle of a variable stands for. -/
def arenaError (function : String) (opIndex : Nat) (var : Var) : ArenaError → EmitError
  | .consumed _ consumedAt => .malformed function opIndex (.consumedValue var consumedAt)
  | .typeMismatch _ expected found =>
    .malformed function opIndex (.typeMismatch var expected found)
  | .notMaterialized _ => .malformed function opIndex (.notMaterialized var)
  | .unknownHandle handle => .malformed function opIndex (.unknownHandle handle)
  | .builder cause => .ir function cause

def working {α : Type} (opIndex : Nat) (var : Var) (steps : Working α) : Lower α := fun c s =>
  let (result, workspace) := steps s.workspace
  (result.mapError (arenaError c.function opIndex var), { s with workspace })

def builder : Lower Builder :=
  return (← get).workspace.builder

def bind (value : ValueId) (ty : Ty) (storage : Storage) : Lower Handle := do
  let s ← get
  let (h, arena) := s.workspace.arena.bind value ty storage
  set { s with workspace := { s.workspace with arena } }
  return h

def define (opIndex : Nat) (var : Var) (h : Handle) : Lower Unit := do
  let s ← get
  if (s.scope.lookup var).isSome then malformed opIndex (.redefinedVar var)
  else set { s with scope := (var, h) :: s.scope }

def lookup (opIndex : Nat) (var : Var) : Lower Handle := do
  match (← get).scope.lookup var with
  | some h => return h
  | none => malformed opIndex (.undefinedVar var)

def target (opIndex : Nat) (label : Label) : Lower BlockId := do
  match (← get).labels.lookup label with
  | some id => return id
  | none => malformed opIndex (.undefinedLabel label)

def typeOf (v : ValueId) : Lower Ty := do
  match (← builder).valueType? v with
  | some ty => return ty
  | none => throw (.ir (← read).function (.builder (.unknownValue v)))

def consume (opIndex : Nat) (var : Var) (ty : Ty) : Lower ValueId := do
  let h ← lookup opIndex var
  let e ← working opIndex var (Working.consume h ty opIndex)
  return e.value

/-- Consume a variable whose value leaves the block. -/
def consumeStored (opIndex : Nat) (var : Var) (ty : Ty) : Lower ValueId := do
  let v ← consume opIndex var ty
  let h ← lookup opIndex var
  working opIndex var (Working.requireMaterialized h)
  return v

def consumeAll (opIndex : Nat) (args : List (Var × Ty)) : Lower (List ValueId) :=
  args.mapM fun (var, ty) => consume opIndex var ty

def consumeAllStored (opIndex : Nat) (args : List (Var × Ty)) : Lower (List ValueId) :=
  args.mapM fun (var, ty) => consumeStored opIndex var ty

def checkArity (opIndex expected found : Nat) : Lower Unit := do
  if expected ≠ found then malformed opIndex (.argumentArity expected found)

def edge (opIndex : Nat) (dest : BlockId) (args : List Var) : Lower Edge := do
  let params ← build (Build.blockParams dest)
  checkArity opIndex params.length args.length
  let values ← (args.zip params).mapM fun (var, param) => do
    consumeStored opIndex var (← typeOf param)
  return ⟨dest, values⟩

/-- Bind variables to values of given types and bring them into scope. -/
def defineAll (opIndex : Nat) (storage : Nat → Storage) :
    (position : Nat) → List ((Var × Ty) × ValueId) → Lower Unit
  | _, [] => return
  | position, ((var, ty), value) :: rest => do
    define opIndex var (← bind value ty (storage position))
    defineAll opIndex storage (position + 1) rest

/-- Create the blocks of all labels, in order. -/
def declareLabels : (opIndex : Nat) → List Op → Lower Unit
  | _, [] => return
  | opIndex, .label label params :: rest => do
    if ((← get).labels.lookup label).isSome then malformed opIndex (.duplicateLabel label)
    let id ← build (Build.createBlock (params.map Prod.snd))
    modify fun s => { s with labels := (label, id) :: s.labels }
    declareLabels (opIndex + 1) rest
  | opIndex, _ :: rest => declareLabels (opIndex + 1) rest

def defineParams : (position : Nat) → List (Var × ValueId) → Lower Unit
  | _, [] => return
  | position, (var, value) :: rest => do
    let ty ← typeOf value
    -- Parameters stand before the first operation, and errors on them point at it.
    define 0 var (← bind value ty (.param position))
    defineParams (position + 1) rest

def bindEntry (params : List Var) : Lower Unit := do
  let values := (← builder).entryParams
  checkArity 0 values.length params.length
  defineParams 0 (params.zip values)

/-- Open the block of a label. Only its parameters are in scope then. -/
def openBlock (opIndex : Nat) (label : Label) (params : List (Var × Ty)) : Lower Unit := do
  if (← builder).current.isSome then malformed opIndex .unterminatedBlock
  let id ← target opIndex label
  build (Build.switchTo id)
  modify fun s => { s with scope := [] }
  let values ← build (Build.blockParams id)
  defineAll opIndex .blockParam 0 (params.zip values)

def call (opIndex : Nat) (libfunc : String) (args results : List Var) : Lower Unit := do
  let c ← read
  match c.registry.get? libfunc with
  | none => throw (.unsupported c.function opIndex libfunc)
  | some l =>
    checkArity opIndex l.params.length args.length
    if l.results.length ≠ results.length then
      malformed opIndex (.resultArity l.results.length results.length)
    let values ← consumeAll opIndex (args.zip l.params)
    let outputs ← build (l.lower values)
    -- Outputs are taken as they come: neither their number nor their types are compared.
    defineAll opIndex (fun _ => .implicit) 0 ((results.zip l.results).zip outputs)

/-- Lower one operation. Only a label may stand where no block is open. -/
def op (opIndex : Nat) (o : Op) : Lower Unit := do
  if !o.isLabel && (← builder).current.isNone then malformed opIndex .unreachableOperation
  match o with
  | .label label params => openBlock opIndex label params
  | .const dest value =>
    let v ← build (Build.const value)
    define opIndex dest (← bind v value.ty .implicit)
  | .dup ty src first second =>
    let h ← lookup opIndex src
    let (h₁, h₂) ← working opIndex src (Working.duplicate h ty opIndex)
    define opIndex first h₁
    define opIndex second h₂
  | .storeTemp ty src dest =>
    let h ← lookup opIndex src
    define opIndex dest (← working opIndex src (Working.storeTemp h ty opIndex))
  | .rename ty src dest =>
    let h ← lookup opIndex src
    define opIndex dest (← working opIndex src (Working.rename h ty opIndex))
  | .call libfunc args results => call opIndex libfunc args results
  | .branch label args =>
    let dest ← target opIndex label
    build (Build.br (← edge opIndex dest args))
  | .condBranch cond onTrue trueArgs onFalse falseArgs =>
    let v ← consume opIndex cond .bool
    let trueDest ← target opIndex onTrue
    let falseDest ← target opIndex onFalse
    let trueEdge ← edge opIndex trueDest trueArgs
    let falseEdge ← edge opIndex falseDest falseArgs
    build (Build.condBr v trueEdge falseEdge)
  | .ret args =>
    let returns := (← builder).signature.returns
    checkArity opIndex returns.length args.length
    build (Build.ret (← consumeAllStored opIndex (args.zip returns)))

def ops : (opIndex : Nat) → List Op → Lower Unit
  | _, [] => return
  | opIndex, o :: rest => do
    op opIndex o
    ops (opIndex + 1) rest

def body (params : List Var) (os : List Op) : Lower Summary := do
  declareLabels 0 os
  bindEntry params
  ops 0 os
  let s ← get
  if s.workspace.builder.current.isSome then malformed os.length .unterminatedBlock
  let a := s.workspace.arena
  return ⟨s.workspace.builder.blocks.length, a.entries.length, a.slots, a.live.length⟩

end Lower

/-- Lower a body into a builder. The builder is given back also when lowering fails. -/
def lowerBody (function : String) (registry : Registry) (b : Builder) (params : List Var)
    (ops : List Op) : Except EmitError Summary × Builder :=
  let (result, s) := (Lower.body params ops).run ⟨function, registry⟩ { workspace := ⟨b, {}⟩ }
  (result, s.workspace.builder)

end FieldSSA
