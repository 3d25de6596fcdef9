import FieldSSA.Proofs.Legibility

namespace FieldSSA

namespace Listing

section Printing

variable (width : Nat) (types : ValueId → Ty)

def operand (v : ValueId) : String :=
  (types v).lowered width ++ " " ++ v.text

def operands (vs : List ValueId) : String :=
  commaList (vs.map (operand width types))

def arguments (args : List ValueId) : String :=
  if args.isEmpty then "" else "(" ++ operands width types args ++ ")"

def edge (e : Edge) : String :=
  e.dest.text ++ arguments width types e.args

/-- An instruction without its results. -/
def operation : Instruction → String
  | .const _ imm => "const " ++ imm.ty.lowered width ++ " " ++ imm.immediateText
  | .cmp _ pred lhs rhs =>
    "cmp " ++ pred.mnemonic ++ " " ++ operand width types lhs ++ ", " ++ rhs.text
  | .call callee args _ => "call @" ++ callee.symbol ++ "(" ++ operands width types args ++ ")"

def instruction (i : Instruction) : String :=
  commaList (i.results.map ValueId.text) ++ (if i.results.isEmpty then "" else " = ") ++
    operation width types i

def returned (values : List ValueId) : String :=
  if values.isEmpty then "void" else operands width types values

def terminator : Terminator → String
  | .br e => "br " ++ edge width types e
  | .condBr cond onTrue onFalse =>
    "cond_br " ++ operand width types cond ++ ", " ++ edge width types onTrue ++ ", " ++
      edge width types onFalse
  | .ret values => "ret " ++ returned width types values

def code (b : Block) : List String :=
  b.instructions.map (instruction width types) ++ [terminator width types b.terminator]

def block (b : Block) : List String :=
  (edge width types ⟨b.id, b.params⟩ ++ ":") :: (code width types b).map ("  " ++ ·)

/-- The blocks of a function and the brace that closes it. -/
def body (blocks : List Block) : List String :=
  blocks.flatMap (block width types) ++ ["\x7d"]

end Printing

section Reading

variable {width : Nat} {types types' : ValueId → Ty} {s t : List Char}

theorem operand_append_inj (hwidth : 32 < width) {v w : ValueId} (hs : Stops Char.isDigit s)
    (ht : Stops Char.isDigit t)
    (h : (operand width types v).toList ++ s = (operand width types' w).toList ++ t) :
    (v = w ∧ types v = types' w) ∧ s = t := by
  simp only [operand, String.toList_append, List.append_assoc] at h
  obtain ⟨hty, h⟩ := Ty.lowered_append_inj hwidth (by simp) (by simp) h
  obtain ⟨hv, h⟩ := ValueId.text_append_inj hs ht (List.append_cancel_left h)
  exact ⟨⟨hv, hty⟩, h⟩

theorem legible_operand (hwidth : 32 < width) :
    Legible (fun v w => v = w ∧ types v = types' w) (operand width types)
      (operand width types') where
  append_inj := operand_append_inj hwidth
  left_begins v s := by simp [operand, Ty.lowered, goesOn]
  right_begins v s := by simp [operand, Ty.lowered, goesOn]

theorem eq_of_forall₂ {vs ws : List ValueId}
    (h : List.Forall₂ (fun v w => v = w ∧ types v = types' w) vs ws) :
    vs = ws ∧ ∀ v ∈ vs, types v = types' v := by
  induction h with
  | nil => simp
  | cons hvw _ ih =>
      obtain ⟨rfl, hty⟩ := hvw
      obtain ⟨rfl, hrest⟩ := ih
      exact ⟨rfl, List.forall_mem_cons.mpr ⟨hty, hrest⟩⟩

theorem operands_append_inj (hwidth : 32 < width) {vs ws : List ValueId}
    (hs : Stops goesOn s) (ht : Stops goesOn t)
    (h : (operands width types vs).toList ++ s = (operands width types' ws).toList ++ t) :
    (vs = ws ∧ ∀ v ∈ vs, types v = types' v) ∧ s = t := by
  obtain ⟨hall, hrest⟩ := (legible_operand hwidth).commaList_append_inj hs ht h
  exact ⟨eq_of_forall₂ hall, hrest⟩

/-- Characters that can follow in a branch. -/
def continuesEdge (c : Char) : Bool :=
  c.isDigit || c == '('

theorem stops_arguments {args : List ValueId} (hs : Stops continuesEdge s) :
    Stops Char.isDigit ((arguments width types args).toList ++ s) := by
  cases args with
  | nil =>
      intro c hc
      exact (Bool.or_eq_false_iff.mp (hs c hc)).1
  | cons v args => simp [arguments]

theorem arguments_append_inj (hwidth : 32 < width) {vs ws : List ValueId}
    (hs : Stops continuesEdge s) (ht : Stops continuesEdge t)
    (h : (arguments width types vs).toList ++ s = (arguments width types' ws).toList ++ t) :
    (vs = ws ∧ ∀ v ∈ vs, types v = types' v) ∧ s = t := by
  cases vs with
  | nil =>
      cases ws with
      | nil => exact ⟨⟨rfl, by simp⟩, h⟩
      | cons w ws =>
          change s = _ at h
          simp [h, arguments, continuesEdge] at hs
  | cons v vs =>
      cases ws with
      | nil =>
          change _ = t at h
          simp [← h, arguments, continuesEdge] at ht
      | cons w ws =>
          simp only [arguments, List.isEmpty_cons, Bool.false_eq_true, if_false,
            String.toList_append, List.append_assoc, List.append_cancel_left_eq] at h
          obtain ⟨hsame, h⟩ := operands_append_inj hwidth (by simp [goesOn]) (by simp [goesOn]) h
          exact ⟨hsame, List.append_cancel_left h⟩

theorem edge_append_inj (hwidth : 32 < width) {e e' : Edge} (hs : Stops continuesEdge s)
    (ht : Stops continuesEdge t)
    (h : (edge width types e).toList ++ s = (edge width types' e').toList ++ t) :
    (e = e' ∧ ∀ v ∈ e.args, types v = types' v) ∧ s = t := by
  simp only [edge, String.toList_append, List.append_assoc] at h
  obtain ⟨hdest, h⟩ := BlockId.text_append_inj (stops_arguments hs) (stops_arguments ht) h
  obtain ⟨⟨hargs, htypes⟩, hrest⟩ := arguments_append_inj hwidth hs ht h
  cases e
  cases e'
  cases hdest
  cases hargs
  exact ⟨⟨rfl, htypes⟩, hrest⟩

theorem const_inj (hwidth : 32 < width) {result result' : ValueId} {imm imm' : Scalar}
    (h : (operation width types (.const result imm)).toList =
      (operation width types' (.const result' imm')).toList) : imm = imm' := by
  simp only [operation, String.toList_append, List.append_assoc, List.append_cancel_left_eq] at h
  obtain ⟨hty, h⟩ := Ty.lowered_append_inj hwidth (by simp) (by simp) h
  have htext := String.toList_inj.mp (List.append_cancel_left h)
  exact Scalar.immediateText_inj hty htext

theorem cmp_inj (hwidth : 32 < width) {result result' lhs lhs' rhs rhs' : ValueId}
    {pred pred' : Predicate}
    (h : (operation width types (.cmp result pred lhs rhs)).toList =
      (operation width types' (.cmp result' pred' lhs' rhs')).toList) :
    pred = pred' ∧ lhs = lhs' ∧ rhs = rhs' := by
  simp only [operation, String.toList_append, List.append_assoc, List.append_cancel_left_eq] at h
  obtain ⟨hpred, h⟩ := Predicate.mnemonic_append_inj h
  obtain ⟨⟨hlhs, -⟩, h⟩ := operand_append_inj hwidth (by simp) (by simp) h
  have htext := congrArg (· ++ []) (List.append_cancel_left h)
  exact ⟨hpred, hlhs, (ValueId.text_append_inj stops_nil stops_nil htext).1⟩

theorem call_inj (hwidth : 32 < width) {callee callee' : Intrinsic}
    {args args' results results' : List ValueId}
    (h : (operation width types (.call callee args results)).toList =
      (operation width types' (.call callee' args' results')).toList) :
    callee = callee' ∧ args = args' := by
  simp only [operation, String.toList_append, List.append_assoc, List.append_cancel_left_eq] at h
  obtain ⟨hcallee, h⟩ := Intrinsic.symbol_append_inj h
  obtain ⟨⟨hargs, -⟩, -⟩ := operands_append_inj hwidth (by simp [goesOn]) (by simp [goesOn]) h
  exact ⟨hcallee, hargs⟩

theorem operation_inj (hwidth : 32 < width) {i j : Instruction} (hresults : i.results = j.results)
    (h : (operation width types i).toList = (operation width types' j).toList) : i = j := by
  cases i with
  | const result imm =>
      cases j with
      | const result' imm' =>
          obtain rfl : result = result' := by simpa [Instruction.results] using hresults
          rw [const_inj hwidth h]
      | cmp result' pred lhs rhs => simp [operation] at h
      | call callee args results => simp [operation] at h
  | cmp result pred lhs rhs =>
      cases j with
      | const result' imm => simp [operation] at h
      | cmp result' pred' lhs' rhs' =>
          obtain rfl : result = result' := by simpa [Instruction.results] using hresults
          obtain ⟨rfl, rfl, rfl⟩ := cmp_inj hwidth h
          rfl
      | call callee args results => simp [operation] at h
  | call callee args results =>
      cases j with
      | const result imm => simp [operation] at h
      | cmp result pred lhs rhs => simp [operation] at h
      | call callee' args' results' =>
          obtain rfl : results = results' := hresults
          obtain ⟨rfl, rfl⟩ := call_inj hwidth h
          rfl

/-- No list of results goes on with what follows it, also if there are none. -/
theorem stops_operation (i : Instruction) (empty : Bool) :
    Stops goesOn ((if empty then "" else " = ").toList ++ (operation width types i).toList) := by
  cases empty with
  | true => cases i <;> simp [operation, goesOn]
  | false => simp [goesOn]

theorem instruction_inj (hwidth : 32 < width) {i j : Instruction}
    (h : instruction width types i = instruction width types' j) : i = j := by
  have h := congrArg String.toList h
  simp only [instruction, String.toList_append, List.append_assoc] at h
  obtain ⟨hall, h⟩ :=
    legible_value.commaList_append_inj (stops_operation i _) (stops_operation j _) h
  have hresults : i.results = j.results := List.forall₂_eq_eq_eq ▸ hall
  rw [hresults] at h
  exact operation_inj hwidth hresults (List.append_cancel_left h)

theorem returned_inj (hwidth : 32 < width) {vs ws : List ValueId}
    (h : (returned width types vs).toList = (returned width types' ws).toList) : vs = ws := by
  cases vs with
  | nil =>
      cases ws with
      | nil => rfl
      | cons w ws => simp [returned, operands, commaList_cons, operand, Ty.lowered] at h
  | cons v vs =>
      cases ws with
      | nil => simp [returned, operands, commaList_cons, operand, Ty.lowered] at h
      | cons w ws =>
          simp only [returned, List.isEmpty_cons, Bool.false_eq_true, if_false] at h
          exact (operands_append_inj hwidth stops_nil stops_nil (congrArg (· ++ []) h)).1.1

theorem terminator_inj (hwidth : 32 < width) {a b : Terminator}
    (h : terminator width types a = terminator width types' b) : a = b := by
  have h := congrArg String.toList h
  cases a with
  | br e =>
      cases b with
      | br e' =>
          simp only [terminator, String.toList_append, List.append_cancel_left_eq] at h
          rw [(edge_append_inj hwidth stops_nil stops_nil (congrArg (· ++ []) h)).1.1]
      | condBr cond onTrue onFalse => simp [terminator] at h
      | ret values => simp [terminator] at h
  | condBr cond onTrue onFalse =>
      cases b with
      | br e => simp [terminator] at h
      | condBr cond' onTrue' onFalse' =>
          simp only [terminator, String.toList_append, List.append_assoc,
            List.append_cancel_left_eq] at h
          obtain ⟨⟨hcond, -⟩, h⟩ := operand_append_inj hwidth (by simp) (by simp) h
          obtain ⟨⟨htrue, -⟩, h⟩ := edge_append_inj hwidth (by simp [continuesEdge])
            (by simp [continuesEdge]) (List.append_cancel_left h)
          have hlast := congrArg (· ++ []) (List.append_cancel_left h)
          have hfalse := (edge_append_inj hwidth stops_nil stops_nil hlast).1.1
          rw [hcond, htrue, hfalse]
      | ret values => simp [terminator] at h
  | ret values =>
      cases b with
      | br e => simp [terminator] at h
      | condBr cond onTrue onFalse => simp [terminator] at h
      | ret values' =>
          simp only [terminator, String.toList_append, List.append_cancel_left_eq] at h
          rw [returned_inj hwidth h]

theorem eq_of_map_eq {α β : Type} {p q : α → β} (hpq : ∀ {a b}, p a = q b → a = b)
    {xs ys : List α} (h : xs.map p = ys.map q) : xs = ys := by
  induction xs generalizing ys with
  | nil => simpa [eq_comm] using h
  | cons x xs ih =>
      cases ys with
      | nil => simp at h
      | cons y ys =>
          obtain ⟨hhead, hrest⟩ := List.cons.inj h
          rw [hpq hhead, ih hrest]

theorem code_inj (hwidth : 32 < width) {b c : Block}
    (h : code width types b = code width types' c) :
    b.instructions = c.instructions ∧ b.terminator = c.terminator := by
  rw [code, code] at h
  obtain ⟨hcode, hend⟩ := List.append_inj' h (by simp)
  exact ⟨eq_of_map_eq (instruction_inj hwidth) hcode,
    terminator_inj hwidth (List.singleton_inj.mp hend)⟩

/-- Lines of code are indented, heads of blocks and the closing brace are not. -/
def indented (line : String) : Bool :=
  line.toList.head? == some ' '

theorem stops_body (blocks : List Block) : Stops indented (body width types blocks) := by
  cases blocks with
  | nil => simp [body, indented]
  | cons b blocks => simp [body, block, edge, BlockId.text, indented]

theorem body_cons (b : Block) (blocks : List Block) :
    body width types (b :: blocks) = (edge width types ⟨b.id, b.params⟩ ++ ":") ::
      ((code width types b).map ("  " ++ ·) ++ body width types blocks) := by
  simp [body, block]

theorem block_inj (hwidth : 32 < width) {b c : Block} {bs cs : List Block}
    (h : body width types (b :: bs) = body width types' (c :: cs)) :
    (b = c ∧ ∀ v ∈ b.params, types v = types' v) ∧
      body width types bs = body width types' cs := by
  rw [body_cons, body_cons] at h
  obtain ⟨hhead, hlines⟩ := List.cons.inj h
  have hhead := congrArg String.toList hhead
  simp only [String.toList_append] at hhead
  obtain ⟨⟨hedge, htypes⟩, -⟩ :=
    edge_append_inj hwidth (by simp [continuesEdge]) (by simp [continuesEdge]) hhead
  obtain ⟨hcode, hrest⟩ := append_inj_of_stops (by simp [indented]) (by simp [indented])
    (stops_body bs) (stops_body cs) hlines
  have hcode := List.map_injective_iff.mpr (fun _ _ => (String.append_right_inj _).mp) hcode
  obtain ⟨hinstructions, hterminator⟩ := code_inj hwidth hcode
  cases b
  cases c
  cases hedge
  cases hinstructions
  cases hterminator
  exact ⟨⟨rfl, htypes⟩, hrest⟩

theorem body_inj (hwidth : 32 < width) {bs cs : List Block}
    (h : body width types bs = body width types' cs) :
    bs = cs ∧ ∀ b ∈ bs, ∀ v ∈ b.params, types v = types' v := by
  induction bs generalizing cs with
  | nil =>
      cases cs with
      | nil => simp
      | cons c cs => simp [body, block, edge, BlockId.text] at h
  | cons b bs ih =>
      cases cs with
      | nil => simp [body, block, edge, BlockId.text] at h
      | cons c cs =>
          obtain ⟨⟨hb, hparams⟩, hrest⟩ := block_inj hwidth h
          obtain ⟨hbs, hall⟩ := ih hrest
          exact ⟨by rw [hb, hbs], List.forall_mem_cons.mpr ⟨hparams, hall⟩⟩

end Reading

section Marks

variable (width : Nat) (types : ValueId → Ty)

/-- Characters that no line of a body holds. -/
def marks : List Char := ['\n', '\x7b']

theorem free_value (v : ValueId) : Free marks v.text :=
  Free.append (by decide) (Free.repr (by decide) _)

theorem free_lowered (ty : Ty) : Free marks (ty.lowered width) :=
  Free.append (by decide) (Free.repr (by decide) _)

theorem free_operand (v : ValueId) : Free marks (operand width types v) :=
  ((free_lowered width (types v)).append (by decide)).append (free_value v)

theorem free_operands (vs : List ValueId) : Free marks (operands width types vs) := by
  apply Free.intercalate (by decide)
  simp [free_operand]

theorem free_edge (e : Edge) : Free marks (edge width types e) := by
  apply Free.append (Free.append (by decide) (Free.repr (by decide) _))
  rw [arguments]
  split
  · decide
  · exact (Free.append (by decide) (free_operands width types _)).append (by decide)

theorem free_immediateText (imm : Scalar) : Free marks imm.immediateText := by
  cases imm with
  | felt x =>
      rw [Scalar.immediateText, Felt.toDecimal]
      cases x.negative with
      | true => exact Free.append (by decide) (Free.repr (by decide) _)
      | false => exact Free.append (by decide) (Free.repr (by decide) _)
  | u32 x => exact Free.repr (by decide) _
  | bool x => cases x <;> decide

theorem free_operation (i : Instruction) : Free marks (operation width types i) := by
  cases i with
  | const result imm =>
      exact ((Free.append (by decide) (free_lowered width _)).append (by decide)).append
        (free_immediateText imm)
  | cmp result pred lhs rhs =>
      have hpred : Free marks ("cmp " ++ pred.mnemonic ++ " ") := by cases pred <;> decide
      exact ((hpred.append (free_operand width types lhs)).append (by decide)).append
        (free_value rhs)
  | call callee args results =>
      have hsymbol : Free marks callee.symbol := (Helper.free_symbol callee).mono (by decide)
      exact (((Free.append (by decide) hsymbol).append (by decide)).append
        (free_operands width types args)).append (by decide)

theorem free_instruction (i : Instruction) : Free marks (instruction width types i) := by
  have hresults : Free marks (commaList (i.results.map ValueId.text)) :=
    Free.intercalate (by decide) (by simp [free_value])
  have hassign : Free marks (if i.results.isEmpty then "" else " = ") := by split <;> decide
  exact (hresults.append hassign).append (free_operation width types i)

theorem free_terminator (t : Terminator) : Free marks (terminator width types t) := by
  cases t with
  | br e => exact Free.append (by decide) (free_edge width types e)
  | condBr cond onTrue onFalse =>
      exact ((((Free.append (by decide) (free_operand width types cond)).append
        (by decide)).append (free_edge width types onTrue)).append (by decide)).append
        (free_edge width types onFalse)
  | ret values =>
      apply Free.append (by decide)
      rw [returned]
      split
      · decide
      · exact free_operands width types values

theorem free_body (blocks : List Block) : ∀ line ∈ body width types blocks, Free marks line := by
  induction blocks with
  | nil => simp [body, Free, marks]
  | cons b blocks ih =>
      have hcode : ∀ line ∈ code width types b, Free marks ("  " ++ line) := by
        intro line hline
        apply Free.append (by decide)
        rcases List.mem_append.mp hline with hi | ht
        · obtain ⟨i, -, rfl⟩ := List.mem_map.mp hi
          exact free_instruction width types i
        · rw [List.mem_singleton.mp ht]
          exact free_terminator width types b.terminator
      rw [body_cons, List.forall_mem_cons, List.forall_mem_append, List.forall_mem_map]
      exact ⟨(free_edge width types _).append (by decide), hcode, ih⟩

end Marks

end Listing

end FieldSSA
