import FieldSSA.Lowering.Emitter
import FieldSSA.Program

namespace FieldSSA

/-- The functions that were emitted and the errors of the others, both in source order. -/
structure Emission where
  program : Program
  errors : List EmitError

namespace Emission

def isComplete (e : Emission) : Bool :=
  e.errors.isEmpty

def failed (e : Emission) : List String :=
  e.errors.filterMap EmitError.function?

end Emission

def Program.emit (sources : List Source) (registry : Registry) (config : Config) :
    Except EmitError Emission := do
  config.validate.mapError .config
  let results := sources.map fun s => s.emit registry config
  return {
    program := ⟨results.filterMap Except.toOption⟩
    errors := results.filterMap fun
      | .error e => some e
      | .ok _ => none }

end FieldSSA
