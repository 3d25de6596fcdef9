import FieldSSA.Lowering.Lower

namespace FieldSSA

inductive EmitterState where
  | empty
  | declaring (signature : Signature)
  | building (builder : Builder)
  /-- The function, and the unused values to report. -/
  | sealed (function : Function) (unused : List Unused)
deriving DecidableEq

def EmitterState.stage : EmitterState → Stage
  | empty => .empty
  | declaring _ => .declaring
  | building _ => .building
  | sealed _ _ => .sealed

structure Emitter where
  registry : Registry
  config : Config
  name : String := ""
  state : EmitterState := .empty

namespace Emitter

def invalidState {α : Type} (e : Emitter) (expected : Stage) : Except EmitError α :=
  .error (.invalidState e.name expected e.state.stage)

/-- Take the signature. The configuration is checked here. -/
def declare (e : Emitter) (signature : Signature) : Except EmitError Emitter :=
  let e := { e with name := signature.name }
  match e.state with
  | .empty => do
    e.config.validate.mapError .config
    return { e with state := .declaring signature }
  | _ => e.invalidState .empty

def build (e : Emitter) (params : List Var) (ops : List Op) : Except EmitError Emitter :=
  match e.state with
  | .declaring signature => do
    let (result, b) := lowerBody e.name e.registry (.ofSignature signature) params ops
    let _ ← result
    return { e with state := .building b }
  | _ => e.invalidState .declaring

def checkReachable (name : String) (f : Function) : Except IrError Function :=
  if f.unreachable.isEmpty then .ok f
  else .error (.verification name (f.unreachable.map .unreachableBlock))

/-- Seal the function and verify it. Without verification every block must still be
reachable. -/
def finish (e : Emitter) : Except EmitError Emitter :=
  match e.state with
  | .building b => Except.mapError (.ir e.name) do
    if e.config.verify then
      let (f, report) ← b.finishWithReport
      return { e with state := .sealed f (if e.config.warnUnused then report.unused else []) }
    else
      let f ← checkReachable e.name (← b.sealed)
      return { e with state := .sealed f [] }
  | _ => e.invalidState .building

def function? (e : Emitter) : Option Function :=
  match e.state with
  | .sealed f _ => some f
  | _ => none

def result (e : Emitter) : Except EmitError (Function × List Unused) :=
  match e.state with
  | .sealed f unused => .ok (f, unused)
  | _ => e.invalidState .sealed

end Emitter

namespace Source

def emitReporting (s : Source) (registry : Registry) (config : Config) :
    Except EmitError (Function × List Unused) := do
  let e ← Emitter.declare { registry, config } s.signature
  let e ← e.build s.paramVars s.ops
  let e ← e.finish
  e.result

def emit (s : Source) (registry : Registry) (config : Config) : Except EmitError Function :=
  Prod.fst <$> s.emitReporting registry config

def compile (s : Source) : Except EmitError Function :=
  s.emit .default {}

end Source

end FieldSSA
