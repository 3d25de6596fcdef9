import FieldSSA.Binary.Basic
import FieldSSA.Config
import FieldSSA.Function.Verify

namespace FieldSSA

inductive BuilderError where
  | noCurrentBlock
  | blockTerminated (block : BlockId)
  | unknownBlock (block : BlockId)
  | missingTerminator (block : BlockId)
  | unknownValue (value : ValueId)
deriving DecidableEq

def BuilderError.message : BuilderError → String
  | noCurrentBlock => "no current block to append to"
  | blockTerminated block => "block " ++ block.text ++ " is already terminated"
  | unknownBlock block => "block " ++ block.text ++ " was never created"
  | missingTerminator block => "block " ++ block.text ++ " has no terminator"
  | unknownValue value => "value " ++ value.text ++ " was never created"

inductive IrError where
  | invalidConfig (cause : ConfigError)
  | builder (cause : BuilderError)
  | verification (function : String) (errors : List VerifyError)
  | encoding (cause : DecodeError)
  | invalidFelt (cause : LiteralError)
deriving DecidableEq

def IrError.message : IrError → String
  | invalidConfig cause => "Invalid configuration: " ++ cause.message
  | builder cause => "Builder error: " ++ cause.message
  | verification function errors =>
    "function `" ++ function ++ "` failed verification with " ++ errors.length.repr ++
      " error(s)"
  | encoding cause => "Encoding error: " ++ cause.message
  | invalidFelt cause => "Invalid felt literal: " ++ cause.message

def Function.verified (f : Function) : Except IrError (Function × Report) :=
  let report := f.verify
  if report.isValid then .ok (f, report) else .error (.verification f.name report.errors)

end FieldSSA
