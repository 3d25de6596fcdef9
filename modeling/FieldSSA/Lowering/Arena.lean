import FieldSSA.Builder

/-!
The arena of value handles of a function being lowered. A handle is live until an operation
consumes it. Values that leave their block must be stored: parameters and temporaries are,
and copies and renamings of stored values are.
-/

namespace FieldSSA

structure Handle where
  index : Nat
deriving DecidableEq, Inhabited

def Handle.text (h : Handle) : String :=
  "h" ++ h.index.repr

inductive Storage where
  | param (position : Nat)
  | blockParam (position : Nat)
  /-- The result of an instruction, not yet stored. -/
  | implicit
  | temp (slot : Nat)
deriving DecidableEq, Inhabited

def Storage.isMaterialized : Storage → Bool
  | implicit => false
  | _ => true

structure HandleEntry where
  value : ValueId
  ty : Ty
  storage : Storage
  /-- The operation that consumed the handle. -/
  consumedAt : Option Nat := none
deriving DecidableEq

inductive ArenaError where
  | unknownHandle (handle : Handle)
  | consumed (handle : Handle) (consumedAt : Nat)
  | typeMismatch (handle : Handle) (expected found : Ty)
  | notMaterialized (handle : Handle)
  | builder (cause : IrError)
deriving DecidableEq

def ArenaError.message : ArenaError → String
  | unknownHandle handle => "handle " ++ handle.text ++ " does not exist"
  | consumed handle consumedAt =>
    "handle " ++ handle.text ++ " was consumed by operation " ++ consumedAt.repr
  | typeMismatch handle expected found =>
    "handle " ++ handle.text ++ " has type " ++ found.name ++ ", expected " ++ expected.name
  | notMaterialized handle => "handle " ++ handle.text ++ " is not materialized"
  | builder cause => cause.message

structure Arena where
  entries : List HandleEntry := []
  slots : Nat := 0
deriving DecidableEq

namespace Arena

def entry? (a : Arena) (h : Handle) : Option HandleEntry :=
  a.entries[h.index]?

def isLive (a : Arena) (h : Handle) : Bool :=
  (a.entry? h).any fun e => e.consumedAt.isNone

def live (a : Arena) : List Handle :=
  ((List.range a.entries.length).map Handle.mk).filter a.isLive

def bind (a : Arena) (value : ValueId) (ty : Ty) (storage : Storage) : Handle × Arena :=
  (⟨a.entries.length⟩, { a with entries := a.entries ++ [{ value, ty, storage }] })

/-- The entry of a live handle of the expected type. -/
def checkLive (a : Arena) (h : Handle) (ty : Ty) : Except ArenaError HandleEntry :=
  match a.entry? h with
  | none => .error (.unknownHandle h)
  | some e =>
    match e.consumedAt with
    | some opIndex => .error (.consumed h opIndex)
    | none => if e.ty = ty then .ok e else .error (.typeMismatch h ty e.ty)

def markConsumed (a : Arena) (h : Handle) (opIndex : Nat) : Arena :=
  { a with entries := a.entries.modify h.index fun e => { e with consumedAt := some opIndex } }

def requireMaterialized (a : Arena) (h : Handle) : Except ArenaError Unit :=
  match a.entry? h with
  | none => .error (.unknownHandle h)
  | some e => if e.storage.isMaterialized then .ok () else .error (.notMaterialized h)

end Arena

structure Workspace where
  builder : Builder
  arena : Arena := {}
deriving DecidableEq

/-- Operations on a workspace: they may fail, and what was done before the failure stays. -/
abbrev Working := ExceptT ArenaError (StateM Workspace)

namespace Working

def build {α : Type} (steps : Build α) : Working α := fun w =>
  let (result, builder) := steps w.builder
  (result.mapError .builder, { w with builder })

def bind (value : ValueId) (ty : Ty) (storage : Storage) : Working Handle := do
  let w ← get
  let (h, arena) := w.arena.bind value ty storage
  set { w with arena }
  return h

def entry (h : Handle) : Working HandleEntry := do
  match (← get).arena.entry? h with
  | some e => return e
  | none => throw (.unknownHandle h)

/-- Consume a live handle of the expected type and give its entry. -/
def consume (h : Handle) (ty : Ty) (opIndex : Nat) : Working HandleEntry := do
  let w ← get
  let e ← w.arena.checkLive h ty
  set { w with arena := w.arena.markConsumed h opIndex }
  return { e with consumedAt := some opIndex }

def requireMaterialized (h : Handle) : Working Unit := do
  (← get).arena.requireMaterialized h

/-- Two copies in place of a handle, stored where it was. -/
def duplicate (h : Handle) (ty : Ty) (opIndex : Nat) : Working (Handle × Handle) := do
  -- Where no block is open, the handle is spent and nothing stands in its place.
  let e ← consume h ty opIndex
  let (first, second) ← build (Build.dup ty e.value)
  return (← bind first ty e.storage, ← bind second ty e.storage)

/-- A copy in a new temporary slot in place of a handle. -/
def storeTemp (h : Handle) (ty : Ty) (opIndex : Nat) : Working Handle := do
  let e ← consume h ty opIndex
  let stored ← build (Build.storeTemp ty e.value)
  let w ← get
  set { w with arena := { w.arena with slots := w.arena.slots + 1 } }
  bind stored ty (.temp w.arena.slots)

/-- A new name in place of a handle, stored where it was. -/
def rename (h : Handle) (ty : Ty) (opIndex : Nat) : Working Handle := do
  let e ← consume h ty opIndex
  let renamed ← build (Build.rename ty e.value)
  bind renamed ty e.storage

end Working

end FieldSSA
