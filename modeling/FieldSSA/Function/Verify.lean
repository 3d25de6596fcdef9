import FieldSSA.Function.Walk

/-!
Structural checks of a function: the entry takes the signature's parameters, every value is
defined once and used only later in the same block, calls follow their contracts, branch
arguments and returns fit, and every block is reachable.
-/

namespace FieldSSA

inductive VerifyError where
  | missingEntry
  | entryParamMismatch (expected found : List Ty)
  | unknownValue (value : ValueId)
  | redefined (value : ValueId)
  | undefinedValue (block : BlockId) (value : ValueId)
  | callArity (block : BlockId) (callee : Intrinsic) (expected found : Nat)
  | callResultArity (block : BlockId) (callee : Intrinsic) (expected found : Nat)
  | typeMismatch (block : BlockId) (value : ValueId) (expected found : Ty)
  | cmpOperands (block : BlockId) (pred : Predicate) (lhs rhs : Ty)
  | undefinedBlock (block dest : BlockId)
  | branchArity (block dest : BlockId) (expected found : Nat)
  | returnArity (block : BlockId) (expected found : Nat)
  | unreachableBlock (block : BlockId)
deriving DecidableEq

def VerifyError.message : VerifyError → String
  | missingEntry => "function has no entry block"
  | entryParamMismatch expected found =>
    "entry block parameters " ++ Ty.tags found ++ " do not match signature " ++ Ty.tags expected
  | unknownValue value => "value " ++ value.text ++ " has no type"
  | redefined value => "value " ++ value.text ++ " is defined more than once"
  | undefinedValue block value =>
    block.text ++ ": value " ++ value.text ++ " is used but not defined in this block"
  | callArity block callee expected found =>
    block.text ++ ": call to " ++ callee.symbol ++ " expects " ++ expected.repr ++
      " argument(s), found " ++ found.repr
  | callResultArity block callee expected found =>
    block.text ++ ": call to " ++ callee.symbol ++ " defines " ++ found.repr ++
      " result(s), contract has " ++ expected.repr
  | typeMismatch block value expected found =>
    block.text ++ ": " ++ value.text ++ " has type " ++ found.name ++ ", expected " ++
      expected.name
  | cmpOperands block pred lhs rhs =>
    block.text ++ ": comparison `" ++ pred.mnemonic ++ "` between " ++ lhs.name ++ " and " ++
      rhs.name ++ " of different types"
  | undefinedBlock block dest => block.text ++ ": branch to undefined block " ++ dest.text
  | branchArity block dest expected found =>
    block.text ++ ": branch to " ++ dest.text ++ " passes " ++ found.repr ++
      " argument(s), block takes " ++ expected.repr
  | returnArity block expected found =>
    block.text ++ ": return passes " ++ found.repr ++ " value(s), signature returns " ++
      expected.repr
  | unreachableBlock block =>
    "block " ++ block.text ++ " is not reachable from the entry block"

/-- A value that a block defines and nothing reads. -/
structure Unused where
  block : BlockId
  value : ValueId
deriving DecidableEq

structure Report where
  errors : List VerifyError
  unused : List Unused
deriving DecidableEq

def Report.isValid (r : Report) : Bool :=
  r.errors.isEmpty

namespace Function

def checkType (f : Function) (block : BlockId) (value : ValueId) (expected : Ty) :
    List VerifyError :=
  match f.valueType? value with
  | none => [.unknownValue value]
  | some found => if found = expected then [] else [.typeMismatch block value expected found]

def checkTypes (f : Function) (block : BlockId) (values : List ValueId) (expected : List Ty) :
    List VerifyError :=
  (values.zip expected).flatMap fun (value, ty) => f.checkType block value ty

/-- New values are in the table and were not defined before. -/
def checkDefinitions (f : Function) : (defined : List ValueId) → List ValueId → List VerifyError
  | _, [] => []
  | defined, v :: rest =>
    (if (f.valueType? v).isNone then [.unknownValue v] else []) ++
      (if v ∈ defined then [.redefined v] else []) ++ f.checkDefinitions (defined ++ [v]) rest

def checkUses (block : BlockId) (scope values : List ValueId) : List VerifyError :=
  (values.filter (· ∉ scope)).map (.undefinedValue block)

def checkInstruction (f : Function) (block : BlockId) : Instruction → List VerifyError
  | .const result imm => f.checkType block result imm.ty
  | .cmp result pred lhs rhs =>
    (match f.valueType? lhs, f.valueType? rhs with
      | some l, some r => if l = r then [] else [.cmpOperands block pred l r]
      | _, _ => []) ++ f.checkType block result .bool
  | .call callee args results =>
    (if callee.params.length = args.length then f.checkTypes block args callee.params
      else [.callArity block callee callee.params.length args.length]) ++
    (if callee.results.length = results.length then f.checkTypes block results callee.results
      else [.callResultArity block callee callee.results.length results.length])

def checkEdge (f : Function) (block : BlockId) (edge : Edge) : List VerifyError :=
  match f.block? edge.dest with
  | none => [.undefinedBlock block edge.dest]
  | some target =>
    if target.params.length = edge.args.length then
      (edge.args.zip target.params).flatMap fun (arg, param) =>
        match f.valueType? param with
        | some ty => f.checkType block arg ty
        | none => []
    else [.branchArity block edge.dest target.params.length edge.args.length]

def checkTerminator (f : Function) (block : BlockId) (term : Terminator) : List VerifyError :=
  (match term with
    | .condBr cond _ _ => f.checkType block cond .bool
    | .ret values =>
      if values.length = f.signature.returns.length then
        f.checkTypes block values f.signature.returns
      else [.returnArity block f.signature.returns.length values.length]
    | .br _ => []) ++ term.successors.flatMap (f.checkEdge block)

/-- Instructions in order. `before` holds what earlier blocks defined, `scope` what this
block has defined so far. -/
def checkInstructions (f : Function) (block : BlockId) (before : List ValueId) :
    (scope : List ValueId) → List Instruction → List VerifyError
  | _, [] => []
  | scope, i :: rest =>
    checkUses block scope i.operands ++ f.checkInstruction block i ++
      f.checkDefinitions (before ++ scope) i.results ++
      f.checkInstructions block before (scope ++ i.results) rest

def checkBlock (f : Function) (before : List ValueId) (b : Block) : List VerifyError :=
  f.checkDefinitions before b.params ++
    f.checkInstructions b.id before b.params b.instructions ++
    checkUses b.id b.definitions b.terminator.operands ++ f.checkTerminator b.id b.terminator

def checkBlocks (f : Function) : (before : List ValueId) → List Block → List VerifyError
  | _, [] => []
  | before, b :: rest => f.checkBlock before b ++ f.checkBlocks (before ++ b.definitions) rest

def checkEntry (f : Function) (entry : Block) : List VerifyError :=
  let found := entry.params.filterMap f.valueType?
  if found = f.signature.params then [] else [.entryParamMismatch f.signature.params found]

def definitions (f : Function) : List Unused :=
  f.blocks.flatMap fun b => b.definitions.map (⟨b.id, ·⟩)

/-- Definitions that no block reads, in program order. -/
def unused (f : Function) : List Unused :=
  let uses := f.blocks.flatMap Block.uses
  f.definitions.filter fun d => d.value ∉ uses

def verify (f : Function) : Report :=
  match f.entry? with
  | none => ⟨[.missingEntry], []⟩
  | some entry =>
    { errors := f.checkEntry entry ++ f.checkBlocks [] f.blocks ++
        f.unreachable.map .unreachableBlock
      unused := f.unused }

end Function

end FieldSSA
