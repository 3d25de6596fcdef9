import FieldSSA.Source.Basic

namespace FieldSSA

structure Draft where
  name : String
  params : List (Var × Ty) := []
  returns : List Ty
  ops : List Op := []
  nextVar : Nat := 0
  nextLabel : Nat := 0
deriving DecidableEq

abbrev Drafting := StateM Draft

def Draft.source (d : Draft) : Source :=
  ⟨d.name, d.params, d.returns, d.ops⟩

def Drafting.source {α : Type} (steps : Drafting α) (name : String) (returns : List Ty) : Source :=
  (steps.run { name, returns }).2.source

namespace Draft

def push (op : Op) : Drafting Unit :=
  modify fun d => { d with ops := d.ops ++ [op] }

def var : Drafting Var :=
  modifyGet fun d => (⟨d.nextVar⟩, { d with nextVar := d.nextVar + 1 })

def vars : Nat → Drafting (List Var)
  | 0 => return []
  | n + 1 => return (← var) :: (← vars n)

def label : Drafting Label :=
  modifyGet fun d => (⟨d.nextLabel⟩, { d with nextLabel := d.nextLabel + 1 })

def param (ty : Ty) : Drafting Var := do
  let v ← var
  modify fun d => { d with params := d.params ++ [(v, ty)] }
  return v

/-- Open a block here and give its parameters. -/
def place (l : Label) (types : List Ty) : Drafting (List Var) := do
  let params ← vars types.length
  push (.label l (params.zip types))
  return params

def const (value : Scalar) : Drafting Var := do
  let dest ← var
  push (.const dest value)
  return dest

def dup (ty : Ty) (src : Var) : Drafting (Var × Var) := do
  let first ← var
  let second ← var
  push (.dup ty src first second)
  return (first, second)

def storeTemp (ty : Ty) (src : Var) : Drafting Var := do
  let dest ← var
  push (.storeTemp ty src dest)
  return dest

def rename (ty : Ty) (src : Var) : Drafting Var := do
  let dest ← var
  push (.rename ty src dest)
  return dest

def call (libfunc : String) (args : List Var) (results : Nat) : Drafting (List Var) := do
  let results ← vars results
  push (.call libfunc args results)
  return results

def callOne (libfunc : String) (args : List Var) : Drafting Var :=
  -- There is one result, so the default is never taken; likewise in `placeOne`.
  (·.headD ⟨0⟩) <$> call libfunc args 1

def placeOne (l : Label) (ty : Ty) : Drafting Var :=
  (·.headD ⟨0⟩) <$> place l [ty]

def branch (target : Label) (args : List Var) : Drafting Unit :=
  push (.branch target args)

def condBranch (cond : Var) (onTrue : Label) (trueArgs : List Var) (onFalse : Label)
    (falseArgs : List Var) : Drafting Unit :=
  push (.condBranch cond onTrue trueArgs onFalse falseArgs)

def ret (args : List Var) : Drafting Unit :=
  push (.ret args)

end Draft

end FieldSSA
