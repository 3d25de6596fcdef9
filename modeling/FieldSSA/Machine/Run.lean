import FieldSSA.Function.Basic
import FieldSSA.Machine.Frame

namespace FieldSSA

/-- Where a run is: its registers, the code left in the block, and the blocks it entered. -/
structure MachineState where
  frame : Frame
  pending : List Instruction
  terminator : Terminator
  visited : List BlockId
deriving DecidableEq

inductive Progress where
  | running (state : MachineState)
  | finished (returns : List Scalar)

structure Outcome where
  returns : List Scalar
  steps : Nat
  visited : List BlockId
deriving DecidableEq

namespace Function

/-- A register takes only data of the type of its value. -/
def checkData (f : Function) (v : ValueId) (data : Scalar) : Except RunError Unit :=
  match f.valueType? v with
  | none => .error (.undefinedValue v)
  | some expected =>
    if expected = data.ty then .ok () else .error (.typeMismatch v expected data.ty)

def bindAll (f : Function) (fr : Frame) : List (ValueId × Scalar) → Except RunError Frame
  | [] => .ok fr
  | (v, data) :: rest => do
    f.checkData v data
    f.bindAll (← fr.write v data) rest

/-- Enter a block: its parameters take the values and its code is next. -/
def enter (f : Function) (fr : Frame) (visited : List BlockId) (dest : BlockId)
    (values : List Scalar) : Except RunError MachineState :=
  match f.block? dest with
  | none => .error (.undefinedBlock dest)
  | some b =>
    if b.params.length ≠ values.length then
      .error (.argumentCount b.params.length values.length)
    else do
      let fr ← f.bindAll fr (b.params.zip values)
      return ⟨{ fr with block := dest }, b.instructions, b.terminator, visited ++ [dest]⟩

def execute (f : Function) (fr : Frame) : Instruction → Except RunError Frame
  | .const result imm => fr.write result imm
  | .cmp result pred lhs rhs => do
    let a ← fr.read lhs
    let b ← fr.read rhs
    match pred.holds? a b with
    | some outcome => fr.write result (.bool outcome)
    | none => throw (.typeMismatch rhs a.ty b.ty)
  | .call callee args results => do
    let outputs ← callee.compute (← fr.readAll args)
    if outputs.length ≠ results.length then
      throw (.argumentCount results.length outputs.length)
    f.bindAll fr (results.zip outputs)

def readCondition (fr : Frame) (v : ValueId) : Except RunError Bool := do
  let data ← fr.read v
  match data.asBool? with
  | some b => return b
  | none => throw (.typeMismatch v .bool data.ty)

/-- Run the next instruction, or the terminator when none is left. -/
def step (f : Function) (s : MachineState) : Except RunError Progress := do
  let fr := { s.frame with steps := s.frame.steps + 1 }
  match s.pending with
  | i :: rest => return .running { s with frame := ← f.execute fr i, pending := rest }
  | [] =>
    match s.terminator with
    | .br edge => return .running (← f.enter fr s.visited edge.dest (← fr.readAll edge.args))
    | .condBr cond onTrue onFalse =>
      let edge := if ← readCondition fr cond then onTrue else onFalse
      return .running (← f.enter fr s.visited edge.dest (← fr.readAll edge.args))
    | .ret values => return .finished (← fr.readAll values)

def runFrom (f : Function) (limit : Nat) : (budget : Nat) → MachineState → Except RunError Outcome
  -- The limit is only named in the error; the budget is what is left of it.
  | 0, _ => .error (.stepLimitExceeded limit)
  | budget + 1, s =>
    match f.step s with
    | .error e => .error e
    | .ok (.running next) => f.runFrom limit budget next
    | .ok (.finished returns) => .ok ⟨returns, s.frame.steps + 1, s.visited⟩

def checkArguments : (index : Nat) → List (Scalar × Ty) → Except RunError Unit
  | _, [] => .ok ()
  | index, (arg, expected) :: rest =>
    if arg.ty = expected then checkArguments (index + 1) rest
    else .error (.argumentType index expected arg.ty)

def defaultLimit : Nat := 10000

/-- Run a function on arguments, within a limit on the number of steps. Limits are given as
numbers of 64 bits, so a result that asks for a limit has to bound it by `2 ^ 64`. -/
def run (f : Function) (limit : Nat) (args : List Scalar) : Except RunError Outcome :=
  if args.length ≠ f.signature.params.length then
    .error (.argumentCount f.signature.params.length args.length)
  else do
    checkArguments 0 (args.zip f.signature.params)
    f.runFrom limit limit (← f.enter (.ofSize f.valueTypes.length) [] .entry args)

/-- The returned values of a run within the default limit. -/
def call (f : Function) (args : List Scalar) : Except RunError (List Scalar) :=
  Outcome.returns <$> f.run defaultLimit args

end Function

end FieldSSA
