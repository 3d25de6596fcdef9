import Mathlib.Data.List.Forall2
import Mathlib.Data.List.Nodup
import FieldSSA.Function.Verify

namespace FieldSSA

namespace Function

def HasType (f : Function) (v : ValueId) (ty : Ty) : Prop :=
  f.valueType? v = some ty

/-- Values have types in position, and there are as many values as types. -/
def HasTypes (f : Function) (vs : List ValueId) (types : List Ty) : Prop :=
  List.Forall₂ f.HasType vs types

/-- An instruction agrees with the table of types. -/
def InstructionTyped (f : Function) : Instruction → Prop
  | .const result imm => f.HasType result imm.ty
  | .cmp result _ lhs rhs =>
      (∀ l r, f.HasType lhs l → f.HasType rhs r → l = r) ∧ f.HasType result .bool
  | .call callee args results =>
      f.HasTypes args callee.params ∧ f.HasTypes results callee.results

/-- A branch goes to a block, and its arguments have the types of the block's parameters. -/
def EdgeTyped (f : Function) (edge : Edge) : Prop :=
  ∃ target, f.block? edge.dest = some target ∧
    List.Forall₂ (fun arg param => ∀ ty, f.HasType param ty → f.HasType arg ty)
      edge.args target.params

/-- A terminator agrees with the table of types and with the signature. -/
def TerminatorTyped (f : Function) : Terminator → Prop
  | .br edge => f.EdgeTyped edge
  | .condBr cond onTrue onFalse =>
      f.HasType cond .bool ∧ f.EdgeTyped onTrue ∧ f.EdgeTyped onFalse
  | .ret values => f.HasTypes values f.signature.returns

/-- Instructions read only what is in scope, and each brings its results into scope. -/
def InstructionsTyped (f : Function) : (scope : List ValueId) → List Instruction → Prop
  | _, [] => True
  | scope, i :: rest =>
      i.operands ⊆ scope ∧ f.InstructionTyped i ∧
        f.InstructionsTyped (scope ++ i.results) rest

structure BlockTyped (f : Function) (b : Block) : Prop where
  definitions : ∀ v ∈ b.definitions, ∃ ty, f.HasType v ty
  instructions : f.InstructionsTyped b.params b.instructions
  operands : b.terminator.operands ⊆ b.definitions
  terminator : f.TerminatorTyped b.terminator

/-- A function without errors. -/
structure WellFormed (f : Function) : Prop where
  entry : ∃ b, f.entry? = some b ∧ f.HasTypes b.params f.signature.params
  definitions : (f.blocks.flatMap Block.definitions).Nodup
  blocks : ∀ b ∈ f.blocks, f.BlockTyped b
  reached : ∀ b ∈ f.blocks, b.id ∈ f.walk

theorem checkType_eq_nil_iff (f : Function) (block : BlockId) (v : ValueId) (ty : Ty) :
    f.checkType block v ty = [] ↔ f.HasType v ty := by
  unfold checkType HasType
  cases f.valueType? v with
  | none => simp
  | some found => by_cases h : found = ty <;> simp [h]

theorem checkTypes_eq_nil_iff (f : Function) (block : BlockId) {vs : List ValueId}
    {types : List Ty} (hlen : vs.length = types.length) :
    f.checkTypes block vs types = [] ↔ f.HasTypes vs types := by
  rw [checkTypes, HasTypes, List.forall₂_iff_zip, List.flatMap_eq_nil_iff]
  constructor
  · intro h
    exact ⟨hlen, fun hmem => (f.checkType_eq_nil_iff block _ _).mp (h _ hmem)⟩
  · rintro ⟨-, h⟩ ⟨v, ty⟩ hmem
    exact (f.checkType_eq_nil_iff block v ty).mpr (h hmem)

theorem HasTypes.length_eq {f : Function} {vs : List ValueId} {types : List Ty}
    (h : f.HasTypes vs types) : vs.length = types.length :=
  List.Forall₂.length_eq h

theorem checkInstruction_eq_nil_iff (f : Function) (block : BlockId) (i : Instruction) :
    f.checkInstruction block i = [] ↔ f.InstructionTyped i := by
  cases i with
  | const result imm => exact f.checkType_eq_nil_iff block result imm.ty
  | cmp result pred lhs rhs =>
      simp only [checkInstruction, InstructionTyped, List.append_eq_nil_iff,
        checkType_eq_nil_iff, HasType]
      refine and_congr_left fun _ => ?_
      cases f.valueType? lhs with
      | none => simp
      | some l =>
          cases f.valueType? rhs with
          | none => simp
          | some r => by_cases h : l = r <;> simp [h]
  | call callee args results =>
      simp only [checkInstruction, InstructionTyped, List.append_eq_nil_iff]
      refine and_congr ?_ ?_
      · split
        · rename_i hlen
          exact f.checkTypes_eq_nil_iff block hlen.symm
        · rename_i hlen
          simpa using fun h => hlen (HasTypes.length_eq h).symm
      · split
        · rename_i hlen
          exact f.checkTypes_eq_nil_iff block hlen.symm
        · rename_i hlen
          simpa using fun h => hlen (HasTypes.length_eq h).symm

theorem checkEdge_eq_nil_iff (f : Function) (block : BlockId) (edge : Edge) :
    f.checkEdge block edge = [] ↔ f.EdgeTyped edge := by
  unfold checkEdge EdgeTyped
  cases f.block? edge.dest with
  | none => simp
  | some target =>
      simp only [Option.some.injEq, exists_eq_left', List.forall₂_iff_zip]
      split
      · rename_i hlen
        rw [List.flatMap_eq_nil_iff]
        simp only [hlen, true_and]
        constructor
        · intro h arg param hmem ty hparam
          have harg := h _ hmem
          simp only [HasType] at hparam
          simpa only [hparam, checkType_eq_nil_iff] using harg
        · rintro h ⟨arg, param⟩ hmem
          cases hparam : f.valueType? param with
          | none => rfl
          | some ty => exact (f.checkType_eq_nil_iff block arg ty).mpr (h hmem ty hparam)
      · rename_i hlen
        simp [Ne.symm hlen]

theorem checkTerminator_eq_nil_iff (f : Function) (block : BlockId) (t : Terminator) :
    f.checkTerminator block t = [] ↔ f.TerminatorTyped t := by
  cases t with
  | br edge =>
      simp [checkTerminator, TerminatorTyped, Terminator.successors, checkEdge_eq_nil_iff]
  | condBr cond onTrue onFalse =>
      simp [checkTerminator, TerminatorTyped, Terminator.successors, checkEdge_eq_nil_iff,
        checkType_eq_nil_iff]
  | ret values =>
      simp only [checkTerminator, TerminatorTyped, Terminator.successors, List.flatMap_nil,
        List.append_nil]
      split
      · rename_i hlen
        exact f.checkTypes_eq_nil_iff block hlen
      · rename_i hlen
        simpa using fun h => hlen (HasTypes.length_eq h)

theorem checkUses_eq_nil_iff (block : BlockId) (scope values : List ValueId) :
    checkUses block scope values = [] ↔ values ⊆ scope := by
  simp [checkUses, List.filter_eq_nil_iff, List.subset_def]

theorem checkDefinitions_eq_nil_iff (f : Function) (defined vs : List ValueId) :
    f.checkDefinitions defined vs = [] ↔
      (∀ v ∈ vs, ∃ ty, f.HasType v ty) ∧ vs.Nodup ∧ defined.Disjoint vs := by
  induction vs generalizing defined with
  | nil => simp [checkDefinitions]
  | cons v rest ih =>
      have hnone : f.valueType? v ≠ none ↔ ∃ ty, f.HasType v ty := Option.ne_none_iff_exists'
      simp only [checkDefinitions, List.append_eq_nil_iff, ih, List.forall_mem_cons,
        List.nodup_cons, List.disjoint_cons_right, List.disjoint_append_left,
        List.singleton_disjoint, ← hnone]
      by_cases hv : v ∈ defined <;> cases f.valueType? v <;> simp [hv]
      tauto

theorem checkInstructions_eq_nil_iff (f : Function) (block : BlockId)
    (before scope : List ValueId) (is : List Instruction) :
    f.checkInstructions block before scope is = [] ↔
      f.InstructionsTyped scope is ∧
        f.checkDefinitions (before ++ scope) (is.flatMap Instruction.results) = [] := by
  induction is generalizing scope with
  | nil => simp [checkInstructions, InstructionsTyped, checkDefinitions]
  | cons i rest ih =>
      simp only [checkInstructions, InstructionsTyped, List.append_eq_nil_iff, ih,
        checkUses_eq_nil_iff, checkInstruction_eq_nil_iff, checkDefinitions_eq_nil_iff,
        List.flatMap_cons, List.forall_mem_append, List.nodup_append', List.disjoint_append_left,
        List.disjoint_append_right]
      tauto

theorem instructionsTyped_append_iff (f : Function) (scope : List ValueId)
    (is js : List Instruction) :
    f.InstructionsTyped scope (is ++ js) ↔ f.InstructionsTyped scope is ∧
      f.InstructionsTyped (scope ++ is.flatMap Instruction.results) js := by
  induction is generalizing scope with
  | nil => simp [InstructionsTyped]
  | cons i rest ih =>
      simp only [List.cons_append, InstructionsTyped, ih, List.flatMap_cons, List.append_assoc]
      tauto

theorem InstructionsTyped.of_mem {f : Function} {scope : List ValueId} {is : List Instruction}
    (h : f.InstructionsTyped scope is) : ∀ i ∈ is, f.InstructionTyped i := by
  induction is generalizing scope with
  | nil => simp
  | cons i rest ih => exact List.forall_mem_cons.mpr ⟨h.2.1, ih h.2.2⟩

theorem InstructionsTyped.operands_subset {f : Function} {scope : List ValueId}
    {is : List Instruction} (h : f.InstructionsTyped scope is) :
    is.flatMap Instruction.operands ⊆ scope ++ is.flatMap Instruction.results := by
  induction is generalizing scope with
  | nil => simp
  | cons i rest ih =>
      obtain ⟨hi, -, hrest⟩ := h
      have hlater := ih hrest
      rw [List.append_assoc] at hlater
      exact List.append_subset.mpr ⟨List.subset_append_of_subset_left _ hi, hlater⟩

theorem BlockTyped.uses_subset {f : Function} {b : Block} (h : f.BlockTyped b) :
    b.uses ⊆ b.definitions :=
  List.append_subset.mpr ⟨h.instructions.operands_subset, h.operands⟩

theorem checkBlock_eq_nil_iff (f : Function) (before : List ValueId) (b : Block) :
    f.checkBlock before b = [] ↔
      f.BlockTyped b ∧ b.definitions.Nodup ∧ before.Disjoint b.definitions := by
  simp only [checkBlock, List.append_eq_nil_iff, checkInstructions_eq_nil_iff,
    checkDefinitions_eq_nil_iff, checkUses_eq_nil_iff, checkTerminator_eq_nil_iff]
  constructor
  · rintro ⟨⟨⟨⟨hp, hpn, hpd⟩, hi, hr, hrn, hrd⟩, hu⟩, ht⟩
    rw [List.disjoint_append_left] at hrd
    refine ⟨⟨?_, hi, hu, ht⟩, ?_, ?_⟩
    · exact List.forall_mem_append.mpr ⟨hp, hr⟩
    · exact List.nodup_append'.mpr ⟨hpn, hrn, hrd.2⟩
    · exact List.disjoint_append_right.mpr ⟨hpd, hrd.1⟩
  · rintro ⟨⟨hd, hi, hu, ht⟩, hn, hdis⟩
    obtain ⟨hp, hr⟩ := List.forall_mem_append.mp hd
    obtain ⟨hpn, hrn, hpr⟩ := List.nodup_append'.mp hn
    obtain ⟨hpd, hrd⟩ := List.disjoint_append_right.mp hdis
    exact ⟨⟨⟨⟨hp, hpn, hpd⟩, hi, hr, hrn, List.disjoint_append_left.mpr ⟨hrd, hpr⟩⟩, hu⟩, ht⟩

theorem checkBlocks_eq_nil_iff (f : Function) (before : List ValueId) (bs : List Block) :
    f.checkBlocks before bs = [] ↔
      (∀ b ∈ bs, f.BlockTyped b) ∧ (bs.flatMap Block.definitions).Nodup ∧
        before.Disjoint (bs.flatMap Block.definitions) := by
  induction bs generalizing before with
  | nil => simp [checkBlocks]
  | cons b rest ih =>
      simp only [checkBlocks, List.append_eq_nil_iff, checkBlock_eq_nil_iff, ih,
        List.forall_mem_cons, List.flatMap_cons, List.nodup_append', List.disjoint_append_left,
        List.disjoint_append_right]
      tauto

theorem filterMap_valueType?_eq_iff (f : Function) {vs : List ValueId} {types : List Ty}
    (htyped : ∀ v ∈ vs, ∃ ty, f.HasType v ty) :
    vs.filterMap f.valueType? = types ↔ f.HasTypes vs types := by
  induction vs generalizing types with
  | nil => simp [HasTypes, eq_comm]
  | cons v rest ih =>
      obtain ⟨⟨ty, hty⟩, hrest⟩ := List.forall_mem_cons.mp htyped
      rw [List.filterMap_cons_some hty]
      cases types with
      | nil => simp [HasTypes]
      | cons expected types =>
          simp only [HasTypes, List.cons.injEq, List.forall₂_cons]
          refine and_congr ?_ (ih hrest)
          simp only [HasType] at hty ⊢
          simp [hty]

theorem checkEntry_eq_nil_iff (f : Function) {entry : Block}
    (htyped : ∀ v ∈ entry.params, ∃ ty, f.HasType v ty) :
    f.checkEntry entry = [] ↔ f.HasTypes entry.params f.signature.params := by
  rw [← f.filterMap_valueType?_eq_iff htyped]
  simp [checkEntry]

theorem unreachable_eq_nil_iff (f : Function) :
    f.unreachable = [] ↔ ∀ b ∈ f.blocks, b.id ∈ f.walk := by
  simp [unreachable, List.filter_eq_nil_iff]

/-- The checks find no error exactly in well-formed functions. -/
theorem verify_errors_eq_nil_iff (f : Function) : f.verify.errors = [] ↔ f.WellFormed := by
  unfold verify
  cases hentry : f.entry? with
  | none =>
      simp only [List.cons_ne_nil, false_iff]
      rintro ⟨⟨b, hb, -⟩, -, -, -⟩
      simp [hentry] at hb
  | some entry =>
      have hmem : entry ∈ f.blocks := List.mem_of_mem_head? hentry
      have hentryTyped (h : ∀ b ∈ f.blocks, f.BlockTyped b) :
          f.checkEntry entry = [] ↔ f.HasTypes entry.params f.signature.params :=
        f.checkEntry_eq_nil_iff fun v hv =>
          (h entry hmem).definitions v (List.mem_append_left _ hv)
      simp only [List.append_eq_nil_iff, List.map_eq_nil_iff, unreachable_eq_nil_iff,
        checkBlocks_eq_nil_iff, List.disjoint_nil_left, and_true]
      constructor
      · rintro ⟨⟨he, hb, hn⟩, hr⟩
        exact ⟨⟨entry, hentry, (hentryTyped hb).mp he⟩, hn, hb, hr⟩
      · rintro ⟨⟨b, hb', he⟩, hn, hb, hr⟩
        obtain rfl : entry = b := by simpa [hentry] using hb'
        exact ⟨⟨(hentryTyped hb).mpr he, hb, hn⟩, hr⟩

end Function

end FieldSSA
