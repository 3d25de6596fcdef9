import FieldSSA.Config
import FieldSSA.Function.Basic

namespace FieldSSA

inductive PrintError where
  | config (cause : ConfigError)
  | untypedValue (value : ValueId)
deriving DecidableEq

def PrintError.message : PrintError → String
  | config cause => "Invalid configuration: " ++ cause.message
  | untypedValue value => "Value " ++ value.text ++ " has no type in this function"

def Config.printable (c : Config) : Except PrintError Unit :=
  c.validate.mapError .config

def commaList (parts : List String) : String :=
  ", ".intercalate parts

namespace Function

/-- A value with its lowered type: `i256 %3`. -/
def operandText (f : Function) (width : Nat) (v : ValueId) : Except PrintError String :=
  match f.valueType? v with
  | some ty => .ok (ty.lowered width ++ " " ++ v.text)
  | none => .error (.untypedValue v)

def operandsText (f : Function) (width : Nat) (vs : List ValueId) : Except PrintError String :=
  commaList <$> vs.mapM (f.operandText width)

/-- A destination, with its arguments in parentheses if there are any. -/
def edgeText (f : Function) (width : Nat) (edge : Edge) : Except PrintError String := do
  if edge.args.isEmpty then return edge.dest.text
  else return edge.dest.text ++ "(" ++ (← f.operandsText width edge.args) ++ ")"

def instructionText (f : Function) (width : Nat) : Instruction → Except PrintError String
  | .const result imm =>
    return result.text ++ " = const " ++ imm.ty.lowered width ++ " " ++ imm.immediateText
  | .cmp result pred lhs rhs =>
    return result.text ++ " = cmp " ++ pred.mnemonic ++ " " ++ (← f.operandText width lhs) ++
      ", " ++ rhs.text
  | .call callee args results => do
    let call := "call @" ++ callee.symbol ++ "(" ++ (← f.operandsText width args) ++ ")"
    if results.isEmpty then return call
    else return commaList (results.map ValueId.text) ++ " = " ++ call

def terminatorText (f : Function) (width : Nat) : Terminator → Except PrintError String
  | .br edge => return "br " ++ (← f.edgeText width edge)
  | .condBr cond onTrue onFalse =>
    return "cond_br " ++ (← f.operandText width cond) ++ ", " ++ (← f.edgeText width onTrue) ++
      ", " ++ (← f.edgeText width onFalse)
  | .ret values => do
    if values.isEmpty then return "ret void"
    else return "ret " ++ (← f.operandsText width values)

def blockLines (f : Function) (width : Nat) (b : Block) : Except PrintError (List String) := do
  let head ← f.edgeText width ⟨b.id, b.params⟩
  let instructions ← b.instructions.mapM (f.instructionText width)
  let terminator ← f.terminatorText width b.terminator
  return (head ++ ":") :: (instructions ++ [terminator]).map ("  " ++ ·)

def lines (f : Function) (width : Nat) : Except PrintError (List String) := do
  let params ← match f.entry? with
    | some entry => f.operandsText width entry.params
    | none => pure ""
  let head := "define " ++ Ty.loweredTuple width f.signature.returns ++ " @" ++ f.name ++ "(" ++
    params ++ ") \x7b"
  let blocks ← f.blocks.mapM (f.blockLines width)
  return ("; " ++ f.signature.text) :: head :: blocks.flatten ++ ["\x7d"]

end Function

def unlines (lines : List String) : String :=
  String.join (lines.map (· ++ "\n"))

def Function.text (f : Function) (c : Config) : Except PrintError String := do
  c.printable
  return unlines (← f.lines c.width)

end FieldSSA
