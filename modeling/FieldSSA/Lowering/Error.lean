import FieldSSA.Lowering.Arena
import FieldSSA.Source.Basic

namespace FieldSSA

inductive Defect where
  | undefinedVar (var : Var)
  | redefinedVar (var : Var)
  | consumedValue (var : Var) (consumedAt : Nat)
  | typeMismatch (var : Var) (expected found : Ty)
  | notMaterialized (var : Var)
  | undefinedLabel (label : Label)
  | duplicateLabel (label : Label)
  | argumentArity (expected found : Nat)
  | resultArity (expected found : Nat)
  | unterminatedBlock
  | unreachableOperation
  | unknownHandle (handle : Handle)
deriving DecidableEq

def Defect.message : Defect → String
  | undefinedVar var => "variable " ++ var.text ++ " is not defined in this block"
  | redefinedVar var => "variable " ++ var.text ++ " is defined twice"
  | consumedValue var consumedAt =>
    "variable " ++ var.text ++ " was already consumed by operation " ++ consumedAt.repr
  | typeMismatch var expected found =>
    "variable " ++ var.text ++ " has type " ++ found.name ++ ", expected " ++ expected.name
  | notMaterialized var =>
    "variable " ++ var.text ++ " must be stored before it crosses a block boundary"
  | undefinedLabel label => "label " ++ label.text ++ " is never placed"
  | duplicateLabel label => "label " ++ label.text ++ " is placed twice"
  | argumentArity expected found =>
    "expected " ++ expected.repr ++ " argument(s), found " ++ found.repr
  | resultArity expected found =>
    "expected " ++ expected.repr ++ " result(s), found " ++ found.repr
  | unterminatedBlock => "block ends without a terminator"
  | unreachableOperation => "operation follows a terminator without a label"
  | unknownHandle handle => "handle " ++ handle.text ++ " does not exist"

inductive Stage where
  | empty
  | declaring
  | building
  | sealed
deriving DecidableEq

def Stage.name : Stage → String
  | empty => "empty"
  | declaring => "declaring"
  | building => "building"
  | sealed => "sealed"

inductive EmitError where
  | malformed (function : String) (opIndex : Nat) (defect : Defect)
  | unsupported (function : String) (opIndex : Nat) (operation : String)
  | invalidState (function : String) (expected found : Stage)
  | config (cause : ConfigError)
  | ir (function : String) (cause : IrError)
deriving DecidableEq

namespace EmitError

def message : EmitError → String
  | malformed function opIndex defect =>
    "malformed operation stream in `" ++ function ++ "` at operation " ++ opIndex.repr ++ ": " ++
      defect.message
  | unsupported function opIndex operation =>
    "unsupported operation `" ++ operation ++ "` in `" ++ function ++ "` at operation " ++
      opIndex.repr
  | invalidState function expected found =>
    "emitter for `" ++ function ++ "` is " ++ found.name ++ ", expected " ++ expected.name
  | config cause => "Invalid configuration: " ++ cause.message
  | ir function cause => "function `" ++ function ++ "`: " ++ cause.message

def function? : EmitError → Option String
  | malformed function _ _ | unsupported function _ _ | invalidState function _ _
  | ir function _ => some function
  | config _ => none

def opIndex? : EmitError → Option Nat
  | malformed _ opIndex _ | unsupported _ opIndex _ => some opIndex
  | _ => none

def defect? : EmitError → Option Defect
  | malformed _ _ defect => some defect
  | _ => none

def isUnsupported : EmitError → Bool
  | unsupported _ _ _ => true
  | _ => false

end EmitError

end FieldSSA
