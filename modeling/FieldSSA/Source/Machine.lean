import FieldSSA.Machine.Compute
import FieldSSA.Source.Basic

/-!
The direct execution of sources: operations run in order on a map from variables to values,
and a branch starts anew with the parameters of its label. Libfuncs are the built-in ones.
-/

namespace FieldSSA

inductive SourceError where
  /-- No rule applies. -/
  | stuck
  | divisionByZero
deriving DecidableEq

/-- The results of a built-in libfunc. -/
def evalLibfunc (name : String) (args : List Scalar) : Except SourceError (List Scalar) :=
  match name, args with
  | "felt252_mul", [.felt a, .felt b] => .ok [.felt (a * b)]
  | "felt252_add", [.felt a, .felt b] => .ok [.felt (a + b)]
  | "felt252_sub", [.felt a, .felt b] => .ok [.felt (a - b)]
  | "felt252_is_zero", [.felt a] => .ok [.bool a.isZero]
  | "u32_overflowing_add", [.u32 a, .u32 b] => .ok [.u32 (a + b), .bool (decide (a + b < a))]
  | "u32_overflowing_sub", [.u32 a, .u32 b] => .ok [.u32 (a - b), .bool (decide (a < b))]
  | "u32_eq", [.u32 a, .u32 b] => .ok [.bool (decide (a = b))]
  | "u32_lt", [.u32 a, .u32 b] => .ok [.bool (decide (a < b))]
  | "u32_le", [.u32 a, .u32 b] => .ok [.bool (decide (a ≤ b))]
  | "u32_is_zero", [.u32 a] => .ok [.bool (decide (a = 0))]
  | "u32_safe_divmod", [.u32 a, .u32 b] =>
    if b = 0 then .error .divisionByZero else .ok [.u32 (a / b), .u32 (a % b)]
  | "u32_to_felt252", [.u32 a] => .ok [.felt (.ofNat a.toNat)]
  | "u32_try_from_felt252", [.felt a] =>
    .ok [.bool (decide (a.canonical < UInt32.size)), .u32 (UInt32.ofNat a.canonical)]
  | _, _ => .error .stuck

structure SourceState where
  ahead : List Op
  scope : List (Var × Scalar)
deriving DecidableEq

namespace SourceState

def read (s : SourceState) (v : Var) : Except SourceError Scalar :=
  match s.scope.lookup v with
  | some data => .ok data
  | none => .error .stuck

def readAll (s : SourceState) (vs : List Var) : Except SourceError (List Scalar) :=
  vs.mapM s.read

end SourceState

namespace Source

/-- The parameters of the first place of a label, and the operations after it. -/
def findLabel (l : Label) : List Op → Option (List (Var × Ty) × List Op)
  | [] => none
  | .label m params :: rest => if m = l then some (params, rest) else findLabel l rest
  | _ :: rest => findLabel l rest

def bindVars (vars : List Var) (values : List Scalar) : Except SourceError (List (Var × Scalar)) :=
  if vars.length = values.length then .ok (vars.zip values) else .error .stuck

/-- Go on after a label, with its parameters in scope. -/
def jump (s : Source) (l : Label) (values : List Scalar) : Except SourceError SourceState :=
  match findLabel l s.ops with
  | none => .error .stuck
  | some (params, ahead) => return ⟨ahead, ← bindVars (params.map Prod.fst) values⟩

def step (s : Source) (st : SourceState) : Except SourceError (SourceState ⊕ List Scalar) :=
  match st.ahead with
  | [] | .label _ _ :: _ => .error .stuck
  | .const dest value :: rest => .ok (.inl ⟨rest, (dest, value) :: st.scope⟩)
  | .dup _ src first second :: rest => do
    let data ← st.read src
    return .inl ⟨rest, (second, data) :: (first, data) :: st.scope⟩
  | .storeTemp _ src dest :: rest | .rename _ src dest :: rest => do
    return .inl ⟨rest, (dest, ← st.read src) :: st.scope⟩
  | .call libfunc args results :: rest => do
    let outputs ← evalLibfunc libfunc (← st.readAll args)
    return .inl ⟨rest, (← bindVars results outputs) ++ st.scope⟩
  | .branch target args :: _ => return .inl (← s.jump target (← st.readAll args))
  | .condBranch cond onTrue trueArgs onFalse falseArgs :: _ => do
    match ← st.read cond with
    | .bool true => return .inl (← s.jump onTrue (← st.readAll trueArgs))
    | .bool false => return .inl (← s.jump onFalse (← st.readAll falseArgs))
    | _ => throw .stuck
  | .ret args :: _ => return .inr (← st.readAll args)

/-- Run at most `budget` operations; `none` if more are needed. -/
def runFrom (s : Source) : (budget : Nat) → SourceState → Except SourceError (Option (List Scalar))
  | 0, _ => .ok none
  | budget + 1, st =>
    match s.step st with
    | .error e => .error e
    | .ok (.inl next) => s.runFrom budget next
    | .ok (.inr values) => .ok (some values)

def run (s : Source) (budget : Nat) (args : List Scalar) :
    Except SourceError (Option (List Scalar)) := do
  s.runFrom budget ⟨s.ops, ← bindVars s.paramVars args⟩

end Source

end FieldSSA
