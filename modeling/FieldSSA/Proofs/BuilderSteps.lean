import Mathlib.Data.List.Range
import FieldSSA.Builder
import FieldSSA.Proofs.Outcome
import FieldSSA.Proofs.WellFormed

namespace FieldSSA

/-- Values that an open block defines so far. -/
def OpenBlock.definitions (blk : OpenBlock) : List ValueId :=
  blk.params ++ blk.instructions.flatMap Instruction.results

namespace Builder

/-- The current block, which can still take instructions. -/
structure OpenAt (b : Builder) (id : BlockId) (blk : OpenBlock) : Prop where
  current : b.current = some id
  block : b.block? id = some blk
  terminator : blk.terminator = none

/-- The function as it stands. A block without a terminator returns nothing. -/
def draft (b : Builder) : Function where
  signature := b.signature
  blocks := b.blocks.mapIdx fun place blk =>
    ⟨⟨place⟩, blk.params, blk.instructions, blk.terminator.getD (.ret [])⟩
  valueTypes := b.valueTypes

/-- Add straight-line code at the end of a block, with the types of its results. -/
def extend (b : Builder) (id : BlockId) (is : List Instruction) (types : List Ty) : Builder :=
  { b with
    blocks := b.blocks.modify id.index fun blk =>
      { blk with instructions := blk.instructions ++ is }
    valueTypes := b.valueTypes ++ types }

theorem extend_extend (b : Builder) (id : BlockId) (is js : List Instruction)
    (types types' : List Ty) :
    (b.extend id is types).extend id js types' = b.extend id (is ++ js) (types ++ types') := by
  simp [extend, List.modify_modify_eq, Function.comp_def]

theorem hasType_of_grows {b b' : Builder} {v : ValueId} {ty : Ty}
    (hgrow : b.valueTypes <+: b'.valueTypes) (h : b.draft.HasType v ty) :
    b'.draft.HasType v ty := by
  obtain ⟨more, hmore⟩ := hgrow
  have hlt : v.index < b.valueTypes.length := (List.getElem?_eq_some_iff.mp h).1
  rw [Function.HasType, Function.valueType?, draft, ← hmore, List.getElem?_append_left hlt]
  exact h

theorem hasTypes_of_grows {b b' : Builder} {vs : List ValueId} {types : List Ty}
    (hgrow : b.valueTypes <+: b'.valueTypes) (h : b.draft.HasTypes vs types) :
    b'.draft.HasTypes vs types :=
  h.imp fun _ _ => hasType_of_grows hgrow

section Frame

variable {b : Builder} {id other : BlockId} {blk : OpenBlock} {is : List Instruction}
  {types : List Ty} {t : Terminator}

theorem block?_extend (h : b.block? id = some blk) :
    (b.extend id is types).block? id =
      some { blk with instructions := blk.instructions ++ is } := by
  simp only [block?, extend] at h ⊢
  simp [h]

theorem block?_extend_of_ne (h : other ≠ id) :
    (b.extend id is types).block? other = b.block? other := by
  have hindex : id.index ≠ other.index := fun hi => h (congrArg BlockId.mk hi.symm)
  simp [block?, extend, List.getElem?_modify_ne _ _ hindex]

theorem block?_close (h : b.block? id = some blk) :
    (b.close id t).block? id = some { blk with terminator := some t } := by
  simp only [block?, close] at h ⊢
  simp [h]

theorem block?_close_of_ne (h : other ≠ id) :
    (b.close id t).block? other = b.block? other := by
  have hindex : id.index ≠ other.index := fun hi => h (congrArg BlockId.mk hi.symm)
  simp [block?, close, List.getElem?_modify_ne _ _ hindex]

theorem OpenAt.extend (h : b.OpenAt id blk) :
    (b.extend id is types).OpenAt id { blk with instructions := blk.instructions ++ is } :=
  ⟨h.current, block?_extend h.block, h.terminator⟩

theorem OpenAt.unique {blk' : OpenBlock} (h : b.OpenAt id blk) (h' : b.OpenAt other blk') :
    other = id ∧ blk' = blk := by
  obtain rfl : other = id := Option.some.inj (h'.current.symm.trans h.current)
  exact ⟨rfl, Option.some.inj (h'.block.symm.trans h.block)⟩

theorem OpenAt.isTerminated (h : b.OpenAt id blk) : b.isTerminated id = false := by
  simp [Builder.isTerminated, h.block, h.terminator]

end Frame

end Builder

namespace Build

variable {b : Builder} {id : BlockId} {blk : OpenBlock}

theorem get_apply (b : Builder) : (get : Build Builder) b = (.ok b, b) := rfl

theorem openBlock_of_openAt (h : b.OpenAt id blk) : openBlock b = (.ok id, b) := by
  rw [openBlock, bind_apply_of_ok (get_apply b)]
  simp only [h.current, h.isTerminated]
  rfl

theorem push_of_openAt (h : b.OpenAt id blk) (i : Instruction) (types : List Ty) :
    push i types b = (.ok (), b.extend id [i] types) := by
  rw [push, bind_apply_of_ok (openBlock_of_openAt h)]
  rfl

theorem terminate_of_openAt (h : b.OpenAt id blk) (t : Terminator) :
    terminate t b = (.ok (), b.close id t) := by
  rw [terminate, bind_apply_of_ok (openBlock_of_openAt h)]
  rfl

theorem const_of_openAt (h : b.OpenAt id blk) (imm : Scalar) :
    const imm b = (.ok ⟨b.valueTypes.length⟩,
      b.extend id [.const ⟨b.valueTypes.length⟩ imm] [imm.ty]) := by
  rw [const, bind_apply_of_ok (rfl : nextValue b = (.ok ⟨b.valueTypes.length⟩, b)),
    bind_apply_of_ok (push_of_openAt h _ _)]
  rfl

theorem cmp_of_openAt (h : b.OpenAt id blk) (pred : Predicate) (lhs rhs : ValueId) :
    cmp pred lhs rhs b = (.ok ⟨b.valueTypes.length⟩,
      b.extend id [.cmp ⟨b.valueTypes.length⟩ pred lhs rhs] [.bool]) := by
  rw [cmp, bind_apply_of_ok (rfl : nextValue b = (.ok ⟨b.valueTypes.length⟩, b)),
    bind_apply_of_ok (push_of_openAt h _ _)]
  rfl

theorem call_of_openAt (h : b.OpenAt id blk) (callee : Intrinsic) (args : List ValueId) :
    call callee args b = (.ok (b.fresh callee.results),
      b.extend id [.call callee args (b.fresh callee.results)] callee.results) := by
  rw [call, bind_apply_of_ok (get_apply b), bind_apply_of_ok (push_of_openAt h _ _)]
  rfl

theorem dup_of_openAt (h : b.OpenAt id blk) (ty : Ty) (v : ValueId) :
    dup ty v b = (.ok (⟨b.valueTypes.length⟩, ⟨b.valueTypes.length + 1⟩),
      b.extend id [.call (.dup ty) [v] (b.fresh [ty, ty])] [ty, ty]) := by
  rw [dup, bind_apply_of_ok (rfl : nextValue b = (.ok ⟨b.valueTypes.length⟩, b)),
    bind_apply_of_ok (call_of_openAt h (.dup ty) [v])]
  rfl

theorem storeTemp_of_openAt (h : b.OpenAt id blk) (ty : Ty) (v : ValueId) :
    storeTemp ty v b = (.ok ⟨b.valueTypes.length⟩,
      b.extend id [.call (.storeTemp ty) [v] (b.fresh [ty])] [ty]) := by
  rw [storeTemp, bind_apply_of_ok (rfl : nextValue b = (.ok ⟨b.valueTypes.length⟩, b)),
    bind_apply_of_ok (call_of_openAt h (.storeTemp ty) [v])]
  rfl

theorem rename_of_openAt (h : b.OpenAt id blk) (ty : Ty) (v : ValueId) :
    rename ty v b = (.ok ⟨b.valueTypes.length⟩,
      b.extend id [.call (.rename ty) [v] (b.fresh [ty])] [ty]) := by
  rw [rename, bind_apply_of_ok (rfl : nextValue b = (.ok ⟨b.valueTypes.length⟩, b)),
    bind_apply_of_ok (call_of_openAt h (.rename ty) [v])]
  rfl

theorem block_of_block? {target : OpenBlock} {dest : BlockId} (h : b.block? dest = some target) :
    block dest b = (.ok target, b) := by
  rw [block, bind_apply_of_ok (get_apply b)]
  simp only [h]
  rfl

theorem blockParams_of_block? {target : OpenBlock} {dest : BlockId}
    (h : b.block? dest = some target) : blockParams dest b = (.ok target.params, b) := by
  have hmap : blockParams dest = block dest >>= fun target => pure target.params := rfl
  rw [hmap, bind_apply_of_ok (block_of_block? h)]
  rfl

theorem switchTo_of_block? {target : OpenBlock} {dest : BlockId}
    (h : b.block? dest = some target) :
    switchTo dest b = (.ok (), { b with current := some dest }) := by
  rw [switchTo, bind_apply_of_ok (block_of_block? h)]
  rfl

theorem br_of_openAt {target : OpenBlock} {edge : Edge} (h : b.OpenAt id blk)
    (hdest : b.block? edge.dest = some target) :
    br edge b = (.ok (), b.close id (.br edge)) := by
  rw [br, bind_apply_of_ok (block_of_block? hdest), terminate_of_openAt h]

theorem condBr_of_openAt {target target' : OpenBlock} {onTrue onFalse : Edge}
    (h : b.OpenAt id blk) (cond : ValueId) (htrue : b.block? onTrue.dest = some target)
    (hfalse : b.block? onFalse.dest = some target') :
    condBr cond onTrue onFalse b = (.ok (), b.close id (.condBr cond onTrue onFalse)) := by
  rw [condBr, bind_apply_of_ok (block_of_block? htrue), bind_apply_of_ok (block_of_block? hfalse),
    terminate_of_openAt h]

theorem ret_of_openAt (h : b.OpenAt id blk) (values : List ValueId) :
    ret values b = (.ok (), b.close id (.ret values)) :=
  terminate_of_openAt h _

end Build

end FieldSSA
