import FieldSSA.Proofs.BuilderHistory
import FieldSSA.Proofs.HelperBodies
import FieldSSA.Proofs.Listing

/-!
The text of a function determines it. Verified functions are printed, and the text of a built
function tells its blocks, its signature and the types of its values. The name is printed as it
stands, so a name may hold any characters that the printer uses around it; it is found again
since the text repeats it, and since no brace opens after the head.
-/

namespace FieldSSA

namespace Listing

variable (width : Nat) (types : ValueId → Ty)

/-- What stands between the two places of a function's name. -/
def betweenNames (signature : Signature) : String :=
  "(" ++ commaList (signature.params.map Ty.name) ++ ") -> (" ++
    commaList (signature.returns.map Ty.name) ++ ")\ndefine " ++
    Ty.loweredTuple width signature.returns ++ " "

/-- The text before the brace that opens the body. -/
def head (signature : Signature) (params : List ValueId) : String :=
  "; " ++ (signature.name ++ betweenNames width signature ++ "@" ++ signature.name) ++
    ("(" ++ operands width types params ++ ") ")

theorem free_betweenNames (signature : Signature) : Free ['@'] (betweenNames width signature) := by
  have hnames (tys : List Ty) : Free ['@'] (commaList (tys.map Ty.name)) := by
    apply Free.intercalate (by decide)
    intro name hname
    obtain ⟨ty, -, rfl⟩ := List.mem_map.mp hname
    cases ty <;> decide
  have htuple : Free ['@'] (Ty.loweredTuple width signature.returns) :=
    (Helper.free_loweredTuple width signature.returns).mono (by decide)
  simp only [betweenNames, Free.append_iff, hnames, htuple, and_true]
  decide

variable {width} {types}

theorem betweenNames_inj {a b : Signature} (h : betweenNames width a = betweenNames width b) :
    a.params = b.params ∧ a.returns = b.returns := by
  have h := congrArg String.toList h
  simp only [betweenNames, String.toList_append, List.append_assoc,
    List.append_cancel_left_eq] at h
  obtain ⟨hparams, h⟩ :=
    legible_name.commaList_append_inj (by simp [goesOn]) (by simp [goesOn]) h
  obtain ⟨hreturns, -⟩ := legible_name.commaList_append_inj (by simp [goesOn]) (by simp [goesOn])
    (List.append_cancel_left h)
  exact ⟨List.forall₂_eq_eq_eq ▸ hparams, List.forall₂_eq_eq_eq ▸ hreturns⟩

theorem head_inj {types' : ValueId → Ty} {a b : Signature} {params : List ValueId}
    (hparams : ∀ v ∈ params, types v = types' v)
    (h : head width types a params = head width types' b params) : a = b := by
  have hoperands : operands width types params = operands width types' params := by
    apply congrArg commaList
    apply List.map_congr_left
    intro v hv
    rw [operand, operand, hparams v hv]
  rw [head, head, hoperands, String.append_left_inj, String.append_right_inj] at h
  -- What follows the first name holds `@` only right before the second one.
  have h : a.name.toList ++ ((betweenNames width a).toList ++ '@' :: a.name.toList) =
      b.name.toList ++ ((betweenNames width b).toList ++ '@' :: b.name.toList) := by
    simpa using congrArg String.toList h
  have hat (c : Signature) : '@' ∉ (betweenNames width c).toList :=
    (free_betweenNames width c).not_mem (List.mem_singleton_self '@')
  obtain ⟨hname, hbetween⟩ := append_inj_of_repeated (hat a) (hat b) h
  obtain ⟨hparams, hreturns⟩ := betweenNames_inj (String.toList_inj.mp hbetween)
  cases a
  cases b
  cases String.toList_inj.mp hname
  cases hparams
  cases hreturns
  rfl

end Listing

namespace Function

variable {f g : Function} {width : Nat}

/-- The type of a value. -/
def typeOf (f : Function) (v : ValueId) : Ty :=
  (f.valueType? v).getD .bool

theorem HasType.typeOf_eq {v : ValueId} {ty : Ty} (h : f.HasType v ty) : f.typeOf v = ty := by
  rw [typeOf, h, Option.getD_some]

theorem operandText_eq {v : ValueId} (h : ∃ ty, f.HasType v ty) :
    f.operandText width v = .ok (Listing.operand width f.typeOf v) := by
  obtain ⟨ty, hty⟩ := h
  rw [Listing.operand, hty.typeOf_eq, operandText, hty]

theorem operandsText_eq {vs : List ValueId} (h : ∀ v ∈ vs, ∃ ty, f.HasType v ty) :
    f.operandsText width vs = .ok (Listing.operands width f.typeOf vs) := by
  rw [operandsText, mapM_eq_ok_map fun v hv => operandText_eq (h v hv)]
  rfl

theorem edgeText_eq {e : Edge} (h : ∀ v ∈ e.args, ∃ ty, f.HasType v ty) :
    f.edgeText width e = .ok (Listing.edge width f.typeOf e) := by
  rw [edgeText, operandsText_eq h, Listing.edge, Listing.arguments]
  cases e.args.isEmpty with
  | true => simp [pure, Except.pure]
  | false => simp [pure, Except.pure, String.append_assoc]

theorem instructionText_eq {i : Instruction} (h : ∀ v ∈ i.operands, ∃ ty, f.HasType v ty) :
    f.instructionText width i = .ok (Listing.instruction width f.typeOf i) := by
  cases i with
  | const result imm =>
      apply congrArg Except.ok
      apply String.toList_inj.mp
      simp [Listing.instruction, Listing.operation, Instruction.results, commaList]
  | cmp result pred lhs rhs =>
      rw [instructionText, operandText_eq (h lhs (by simp [Instruction.operands]))]
      apply congrArg Except.ok
      apply String.toList_inj.mp
      simp [Listing.instruction, Listing.operation, Instruction.results, commaList]
  | call callee args results =>
      have h : ∀ v ∈ args, ∃ ty, f.HasType v ty := h
      rw [instructionText, operandsText_eq h, Listing.instruction, Listing.operation,
        Instruction.results]
      cases results with
      | nil => simp [pure, Except.pure, commaList]
      | cons v results => simp [pure, Except.pure, String.append_assoc]

theorem terminatorText_eq {t : Terminator} (h : ∀ v ∈ t.operands, ∃ ty, f.HasType v ty) :
    f.terminatorText width t = .ok (Listing.terminator width f.typeOf t) := by
  cases t with
  | br e =>
      rw [terminatorText, edgeText_eq h]
      rfl
  | condBr cond onTrue onFalse =>
      simp only [Terminator.operands, List.cons_append, List.forall_mem_cons,
        List.forall_mem_append] at h
      rw [terminatorText, operandText_eq h.1, edgeText_eq h.2.1, edgeText_eq h.2.2]
      rfl
  | ret values =>
      have h : ∀ v ∈ values, ∃ ty, f.HasType v ty := h
      rw [terminatorText, operandsText_eq h, Listing.terminator, Listing.returned]
      cases values.isEmpty with
      | true => rfl
      | false => rfl

theorem WellFormed.blockLines_eq (hw : f.WellFormed) {b : Block} (hb : b ∈ f.blocks) :
    f.blockLines width b = .ok (Listing.block width f.typeOf b) := by
  have htyped := (hw.blocks b hb).definitions
  have huses : ∀ v ∈ b.uses, ∃ ty, f.HasType v ty :=
    fun v hv => htyped v ((hw.blocks b hb).uses_subset hv)
  rw [Block.uses, List.forall_mem_append] at huses
  have hhead : f.edgeText width ⟨b.id, b.params⟩ =
      .ok (Listing.edge width f.typeOf ⟨b.id, b.params⟩) :=
    edgeText_eq fun v hv => htyped v (List.mem_append_left _ hv)
  have hcode : b.instructions.mapM (f.instructionText width) =
      .ok (b.instructions.map (Listing.instruction width f.typeOf)) := by
    apply mapM_eq_ok_map
    intro i hi
    apply instructionText_eq
    intro v hv
    exact huses.1 v (List.mem_flatMap.mpr ⟨i, hi, hv⟩)
  rw [blockLines, hhead, hcode, terminatorText_eq huses.2]
  rfl

theorem WellFormed.text_eq (hw : f.WellFormed) {entry : Block} (hentry : f.entry? = some entry)
    {c : Config} (hc : c.validate = .ok ()) :
    f.text c = .ok (Listing.head c.width f.typeOf f.signature entry.params ++ "\x7b\n" ++
      unlines (Listing.body c.width f.typeOf f.blocks)) := by
  have hparams : f.operandsText c.width entry.params =
      .ok (Listing.operands c.width f.typeOf entry.params) := by
    apply operandsText_eq
    intro v hv
    exact (hw.blocks entry (List.mem_of_mem_head? hentry)).definitions v
      (List.mem_append_left _ hv)
  have hblocks : f.blocks.mapM (f.blockLines c.width) =
      .ok (f.blocks.map (Listing.block c.width f.typeOf)) :=
    mapM_eq_ok_map fun b hb => hw.blockLines_eq hb
  have hprintable : c.printable = .ok () := by
    rw [Config.printable, hc]
    rfl
  rw [text, hprintable, ok_bind, lines, hentry, hblocks]
  simp only [hparams, ok_bind]
  apply congrArg Except.ok
  apply String.toList_inj.mp
  simp [unlines, Listing.head, Listing.betweenNames, Listing.body, Signature.text, commaList,
    Function.name, List.flatMap_def]

/-- The text cut at its last opening brace. -/
theorem WellFormed.head_body_of_text_eq (hf : f.WellFormed) (hg : g.WellFormed)
    {first first' : Block} (hfirst : f.entry? = some first) (hfirst' : g.entry? = some first')
    {c : Config} (hc : c.validate = .ok ()) (h : f.text c = g.text c) :
    Listing.head c.width f.typeOf f.signature first.params =
        Listing.head c.width g.typeOf g.signature first'.params ∧
      Listing.body c.width f.typeOf f.blocks = Listing.body c.width g.typeOf g.blocks := by
  rw [hf.text_eq hfirst hc, hg.text_eq hfirst' hc, Except.ok.injEq] at h
  have hline (f : Function) : ∀ line ∈ Listing.body c.width f.typeOf f.blocks,
      '\n' ∉ line.toList := fun line hline =>
    (Listing.free_body _ _ _ line hline).not_mem (by decide)
  have hbrace (f : Function) :
      '\x7b' ∉ ("\n" ++ unlines (Listing.body c.width f.typeOf f.blocks)).toList := by
    apply Free.not_mem _ (List.mem_singleton_self _)
    apply Free.append (by decide)
    apply free_unlines (by decide)
    intro line hline
    exact (Listing.free_body _ _ _ line hline).mono (by decide)
  have hlists : (Listing.head c.width f.typeOf f.signature first.params).toList ++
        '\x7b' :: ("\n" ++ unlines (Listing.body c.width f.typeOf f.blocks)).toList =
      (Listing.head c.width g.typeOf g.signature first'.params).toList ++
        '\x7b' :: ("\n" ++ unlines (Listing.body c.width g.typeOf g.blocks)).toList := by
    simpa using congrArg String.toList h
  obtain ⟨hhead, hbody⟩ := append_cons_inj_of_last (hbrace f) (hbrace g) hlists
  have hlines := String.append_right_inj _ |>.mp (String.toList_inj.mp hbody)
  exact ⟨String.toList_inj.mp hhead, unlines_inj (hline f) (hline g) hlines⟩

theorem WellFormed.of_text_eq (hf : f.WellFormed) (hg : g.WellFormed) {c : Config}
    (hc : c.validate = .ok ()) (h : f.text c = g.text c) :
    f.signature = g.signature ∧ f.blocks = g.blocks ∧
      ∀ b ∈ f.blocks, ∀ v ∈ b.params, f.typeOf v = g.typeOf v := by
  have hwidth : 32 < c.width := Nat.lt_of_lt_of_le (by decide) (Config.le_width_of_validate hc)
  obtain ⟨first, hfirst, -⟩ := hf.entry
  obtain ⟨first', hfirst', -⟩ := hg.entry
  obtain ⟨hhead, hbody⟩ := hf.head_body_of_text_eq hg hfirst hfirst' hc h
  obtain ⟨hblocks, htypes⟩ := Listing.body_inj hwidth hbody
  have hsame : first' = first := by
    have hfirst : g.blocks.head? = some first := hblocks ▸ hfirst
    exact Option.some.inj (hfirst'.symm.trans hfirst)
  rw [hsame] at hhead
  exact ⟨Listing.head_inj (htypes first (List.mem_of_mem_head? hfirst)) hhead, hblocks, htypes⟩

theorem HasTypes.valueType?_eq {vs : List ValueId} {types : List Ty} (hf : f.HasTypes vs types)
    (hg : g.HasTypes vs types) : ∀ v ∈ vs, f.valueType? v = g.valueType? v := by
  induction hf with
  | nil => simp
  | cons hv _ ih =>
      obtain ⟨hv', hrest⟩ := List.forall₂_cons.mp hg
      exact List.forall_mem_cons.mpr ⟨Eq.trans hv (Eq.symm hv'), ih hrest⟩

/-- The results of an instruction have the same types in all functions where it is typed. -/
theorem InstructionTyped.valueType?_eq {i : Instruction} (hf : f.InstructionTyped i)
    (hg : g.InstructionTyped i) : ∀ v ∈ i.results, f.valueType? v = g.valueType? v := by
  cases i with
  | const result imm =>
      simp only [Instruction.results, List.forall_mem_singleton]
      exact Eq.trans hf (Eq.symm hg)
  | cmp result pred lhs rhs =>
      simp only [Instruction.results, List.forall_mem_singleton]
      exact Eq.trans hf.2 (Eq.symm hg.2)
  | call callee args results =>
      exact hf.2.valueType?_eq hg.2

theorem BlockTyped.valueType?_eq {b : Block} (hf : f.BlockTyped b) (hg : g.BlockTyped b)
    (hparams : ∀ v ∈ b.params, f.typeOf v = g.typeOf v) :
    ∀ v ∈ b.definitions, f.valueType? v = g.valueType? v := by
  rw [Block.definitions, List.forall_mem_append]
  constructor
  · intro v hv
    obtain ⟨ty, hty⟩ := hf.definitions v (List.mem_append_left _ hv)
    obtain ⟨ty', hty'⟩ := hg.definitions v (List.mem_append_left _ hv)
    have hsame := hparams v hv
    rw [hty.typeOf_eq, hty'.typeOf_eq] at hsame
    rw [hty, hty', hsame]
  · intro v hv
    obtain ⟨i, hi, hv⟩ := List.mem_flatMap.mp hv
    exact (hf.instructions.of_mem i hi).valueType?_eq (hg.instructions.of_mem i hi) v hv

/-- Each place of the table is defined in a block, which tells its type. -/
theorem Built.valueTypes_eq (hf : f.Built) (hg : g.Built) (hblocks : f.blocks = g.blocks)
    (h : ∀ b ∈ f.blocks, ∀ v ∈ b.definitions, f.valueType? v = g.valueType? v) :
    f.valueTypes = g.valueTypes := by
  have hplaces := hf.definitions_perm
  have hplaces' := hg.definitions_perm
  rw [← hblocks] at hplaces'
  have hlength : f.valueTypes.length = g.valueTypes.length := by
    simpa using hplaces.length_eq.symm.trans hplaces'.length_eq
  apply List.ext_getElem?
  intro place
  by_cases hlt : place < f.valueTypes.length
  · have hmem : (⟨place⟩ : ValueId) ∈ f.blocks.flatMap Block.definitions := by
      rw [hplaces.mem_iff, mem_numbered_iff]
      exact ⟨Nat.zero_le _, by simpa using hlt⟩
    obtain ⟨b, hb, hv⟩ := List.mem_flatMap.mp hmem
    exact h b hb ⟨place⟩ hv
  · rw [List.getElem?_eq_none (Nat.le_of_not_lt hlt),
      List.getElem?_eq_none (hlength ▸ Nat.le_of_not_lt hlt)]

/-- Under a valid configuration every verified function has a text, and no two functions that
builders finished have the same. -/
theorem text_determines_function (c : Config) (hc : c.validate = .ok ()) :
    (∀ f : Function, f.verify.errors = [] → ∃ text, f.text c = .ok text) ∧
      ∀ f g : Function, f.Built → g.Built → f.text c = g.text c → f = g := by
  constructor
  · intro f hverify
    have hw := f.verify_errors_eq_nil_iff.mp hverify
    obtain ⟨first, hfirst, -⟩ := hw.entry
    exact ⟨_, hw.text_eq hfirst hc⟩
  · intro f g hf hg h
    have hwf := f.verify_errors_eq_nil_iff.mp hf.verify_errors
    have hwg := g.verify_errors_eq_nil_iff.mp hg.verify_errors
    obtain ⟨hsignature, hblocks, hparams⟩ := hwf.of_text_eq hwg hc h
    have htypes : f.valueTypes = g.valueTypes := by
      apply hf.valueTypes_eq hg hblocks
      intro b hb
      exact (hwf.blocks b hb).valueType?_eq (hwg.blocks b (hblocks ▸ hb)) (hparams b hb)
    cases f
    cases g
    cases hsignature
    cases hblocks
    cases htypes
    rfl

theorem gcdLoop_text_determines :
    Config.validate {} = .ok () ∧ (∃ text, gcdLoop.text {} = .ok text) ∧ gcdLoop.Built ∧
      ∀ g : Function, g.Built → g.text {} = gcdLoop.text {} → g = gcdLoop := by
  obtain ⟨hprints, hinj⟩ := text_determines_function {} rfl
  exact ⟨rfl, hprints gcdLoop gcdLoop_verify_errors, gcdLoop_built,
    fun g hg h => hinj g gcdLoop hg gcdLoop_built h⟩

-- A type at the end of the table that no value has is not printed: builders leave none.
example :
    ({ gcdLoop with valueTypes := gcdLoop.valueTypes ++ [Ty.bool] } : Function).text {} =
      gcdLoop.text {} := rfl

end Function

end FieldSSA
