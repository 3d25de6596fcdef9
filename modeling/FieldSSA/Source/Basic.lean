import FieldSSA.Function.Basic

/-!
Sources of functions: operations on variables and labels, in one stream. The code before
the first label is the entry block; each label opens a block with typed parameters. A
variable belongs to the block that defines it.
-/

namespace FieldSSA

structure Var where
  index : Nat
deriving DecidableEq, Inhabited

def Var.text (v : Var) : String :=
  "[" ++ v.index.repr ++ "]"

structure Label where
  index : Nat
deriving DecidableEq, Inhabited

def Label.text (l : Label) : String :=
  "L" ++ l.index.repr

inductive Op where
  | label (label : Label) (params : List (Var × Ty))
  | const (dest : Var) (value : Scalar)
  /-- Two copies of a variable, which is consumed. -/
  | dup (ty : Ty) (src first second : Var)
  | storeTemp (ty : Ty) (src dest : Var)
  | rename (ty : Ty) (src dest : Var)
  | call (libfunc : String) (args results : List Var)
  | branch (target : Label) (args : List Var)
  | condBranch (cond : Var) (onTrue : Label) (trueArgs : List Var) (onFalse : Label)
      (falseArgs : List Var)
  | ret (args : List Var)
deriving DecidableEq, Inhabited

namespace Op

/-- The name of an operation; a call has the name of its libfunc. -/
def name : Op → String
  | label _ _ => "label"
  | const _ _ => "const"
  | dup _ _ _ _ => "duplicate"
  | storeTemp _ _ _ => "store_temp"
  | rename _ _ _ => "rename"
  | call libfunc _ _ => libfunc
  | branch _ _ => "branch"
  | condBranch _ _ _ _ _ => "cond_branch"
  | ret _ => "return"

def isTerminator : Op → Bool
  | branch _ _ | condBranch _ _ _ _ _ | ret _ => true
  | _ => false

def isLabel : Op → Bool
  | label _ _ => true
  | _ => false

end Op

structure Source where
  name : String
  params : List (Var × Ty)
  returns : List Ty
  ops : List Op
deriving DecidableEq, Inhabited

namespace Source

def paramTypes (s : Source) : List Ty :=
  s.params.map Prod.snd

def paramVars (s : Source) : List Var :=
  s.params.map Prod.fst

def signature (s : Source) : Signature :=
  ⟨s.name, s.paramTypes, s.returns⟩

end Source

end FieldSSA
