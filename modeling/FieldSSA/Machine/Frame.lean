import FieldSSA.Machine.Compute

namespace FieldSSA

structure Frame where
  registers : List (Option Scalar)
  block : BlockId := .entry
  /-- Instructions and terminators that have run. -/
  steps : Nat := 0
deriving DecidableEq

namespace Frame

def ofSize (n : Nat) : Frame :=
  { registers := List.replicate n none }

def read (fr : Frame) (v : ValueId) : Except RunError Scalar :=
  match fr.registers[v.index]?.join with
  | some data => .ok data
  | none => .error (.undefinedValue v)

def readAll (fr : Frame) (vs : List ValueId) : Except RunError (List Scalar) :=
  vs.mapM fr.read

def write (fr : Frame) (v : ValueId) (data : Scalar) : Except RunError Frame :=
  if v.index < fr.registers.length then
    .ok { fr with registers := fr.registers.set v.index (some data) }
  else .error (.undefinedValue v)

end Frame

end FieldSSA
