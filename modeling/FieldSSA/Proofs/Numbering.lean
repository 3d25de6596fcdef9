import Mathlib.Data.List.Perm.Basic
import FieldSSA.Proofs.Correspondence

namespace FieldSSA

theorem numbered_zero_add (count more : Nat) :
    numbered 0 (count + more) = numbered 0 count ++ numbered count more := by
  simp [numbered, List.range_add, Function.comp_def]

theorem flatMap_modify_perm {α β : Type} {g : α → List β} {f : α → α} {a : α} {as : List α}
    {i : Nat} (extra : List β) (ha : as[i]? = some a) (hf : g (f a) = g a ++ extra) :
    ((as.modify i f).flatMap g).Perm (as.flatMap g ++ extra) := by
  induction as generalizing i with
  | nil => simp at ha
  | cons head rest ih =>
      cases i with
      | zero =>
          obtain rfl : head = a := by simpa using ha
          rw [List.modify_zero_cons, List.flatMap_cons, List.flatMap_cons, hf]
          simpa using List.perm_append_comm.append_left (g head)
      | succ i =>
          rw [List.modify_succ_cons, List.flatMap_cons, List.flatMap_cons, List.append_assoc]
          exact (ih (by simpa using ha)).append_left (g head)

/-- Items that are changed place by place without changing their elements. -/
theorem flatMap_mapIdx {α β γ : Type} (g : α → List γ) (g' : β → List γ) (f : Nat → α → β)
    (hf : ∀ i a, g' (f i a) = g a) (as : List α) : (as.mapIdx f).flatMap g' = as.flatMap g := by
  induction as generalizing f with
  | nil => rfl
  | cons a rest ih =>
      rw [List.mapIdx_cons, List.flatMap_cons, List.flatMap_cons, hf,
        ih (fun i => f (i + 1)) fun i => hf (i + 1)]

namespace Builder

/-- The values that the blocks define are the places of the table, each once. -/
def Numbered (b : Builder) : Prop :=
  (b.blocks.flatMap OpenBlock.definitions).Perm (numbered 0 b.valueTypes.length)

/-- What building steps keep. -/
structure Keeps (b b' : Builder) : Prop where
  signature : b'.signature = b.signature
  grows : b.valueTypes <+: b'.valueTypes
  params : b'.blocks.map OpenBlock.params = b.blocks.map OpenBlock.params
  isNumbered : b.Numbered → b'.Numbered

variable {b b' b'' : Builder} {id : BlockId} {blk : OpenBlock}

theorem Keeps.refl (b : Builder) : b.Keeps b :=
  ⟨rfl, List.prefix_refl _, rfl, fun h => h⟩

theorem Keeps.trans (h : b.Keeps b') (h' : b'.Keeps b'') : b.Keeps b'' where
  signature := h'.signature.trans h.signature
  grows := h.grows.trans h'.grows
  params := h'.params.trans h.params
  isNumbered hn := h'.isNumbered (h.isNumbered hn)

theorem Keeps.block? (h : b.Keeps b') (hblk : b.block? id = some blk) :
    ∃ blk', b'.block? id = some blk' ∧ blk'.params = blk.params := by
  have hparams : (b'.blocks.map OpenBlock.params)[id.index]? = some blk.params := by
    rw [h.params, List.getElem?_map]
    exact congrArg (Option.map OpenBlock.params) hblk
  rw [List.getElem?_map] at hparams
  exact Option.map_eq_some_iff.mp hparams

theorem Keeps.exists_block? {blk' : OpenBlock} (h : b.Keeps b')
    (hblk' : b'.block? id = some blk') : ∃ blk, b.block? id = some blk := by
  have hlt : id.index < b.blocks.length := by
    rw [← List.length_map OpenBlock.params, ← h.params, List.length_map]
    exact (List.getElem?_eq_some_iff.mp hblk').1
  exact ⟨_, List.getElem?_eq_getElem hlt⟩

theorem map_params_modify {f : OpenBlock → OpenBlock} (hf : ∀ blk, (f blk).params = blk.params)
    (blocks : List OpenBlock) (i : Nat) :
    (blocks.modify i f).map OpenBlock.params = blocks.map OpenBlock.params := by
  induction blocks generalizing i with
  | nil => simp
  | cons blk rest ih =>
      cases i with
      | zero => simp [hf]
      | succ i => simp [ih]

theorem Keeps.extend {is : List Instruction} {types : List Ty} (hblk : b.block? id = some blk)
    (hresults : is.flatMap Instruction.results =
      numbered b.valueTypes.length types.length) :
    b.Keeps (b.extend id is types) where
  signature := rfl
  grows := List.prefix_append _ _
  params := map_params_modify (by simp) _ _
  isNumbered hn := by
    have hperm := flatMap_modify_perm (g := OpenBlock.definitions)
      (f := fun blk => { blk with instructions := blk.instructions ++ is })
      (is.flatMap Instruction.results) hblk (by simp [OpenBlock.definitions])
    rw [Numbered, Builder.extend, List.length_append, numbered_zero_add, ← hresults]
    exact hperm.trans (List.Perm.append_right _ hn)

theorem Keeps.close {t : Terminator} (hblk : b.block? id = some blk) :
    b.Keeps (b.close id t) where
  signature := rfl
  grows := List.prefix_refl _
  params := map_params_modify (by simp) _ _
  isNumbered hn := by
    have hperm := flatMap_modify_perm (g := OpenBlock.definitions)
      (f := fun blk => { blk with terminator := some t }) [] hblk (by simp [OpenBlock.definitions])
    rw [List.append_nil] at hperm
    exact hperm.trans hn

theorem Keeps.current (b : Builder) (current : Option BlockId) :
    b.Keeps { b with current } :=
  ⟨rfl, List.prefix_refl _, rfl, fun h => h⟩

theorem Numbered.addBlock (hn : b.Numbered) (types : List Ty) : (b.addBlock types).Numbered := by
  simpa [Numbered, Builder.addBlock, OpenBlock.definitions, numbered_zero_add,
    fresh_eq_numbered] using List.Perm.append_right _ hn

theorem Numbered.mem_iff (hn : b.Numbered) {v : ValueId} :
    v ∈ b.blocks.flatMap OpenBlock.definitions ↔ v.index < b.valueTypes.length := by
  rw [List.Perm.mem_iff hn, mem_numbered_iff]
  omega

theorem Numbered.nodup (hn : b.Numbered) : (b.blocks.flatMap OpenBlock.definitions).Nodup :=
  List.Perm.nodup_iff hn |>.mpr (nodup_numbered _ _)

theorem block?_draft (id : BlockId) :
    b.draft.block? id = (b.block? id).map fun blk =>
      ⟨id, blk.params, blk.instructions, blk.terminator.getD (.ret [])⟩ := by
  simp only [Function.block?, draft, Builder.block?, List.getElem?_mapIdx]
  cases b.blocks[id.index]? <;> simp

theorem definitions_draft : b.draft.blocks.flatMap Block.definitions =
    b.blocks.flatMap OpenBlock.definitions :=
  flatMap_mapIdx OpenBlock.definitions Block.definitions _ (fun _ _ => rfl) _

theorem draft_idsArePlaces : b.draft.IdsArePlaces := by
  intro place blk h
  simp only [draft, List.getElem?_mapIdx, Option.map_eq_some_iff] at h
  obtain ⟨open', -, rfl⟩ := h
  rfl

theorem sealBlocks_eq (next : Nat) {blocks : List OpenBlock}
    (h : ∀ blk ∈ blocks, blk.terminator.isSome) :
    sealBlocks next blocks = .ok (blocks.mapIdx fun place blk =>
      ⟨⟨next + place⟩, blk.params, blk.instructions, blk.terminator.getD (.ret [])⟩) := by
  induction blocks generalizing next with
  | nil => rfl
  | cons blk rest ih =>
      obtain ⟨hblk, hrest⟩ := List.forall_mem_cons.mp h
      obtain ⟨t, ht⟩ := Option.isSome_iff_exists.mp hblk
      rw [sealBlocks, List.mapIdx_cons, ht]
      simp only [ih (next + 1) hrest, ok_bind, pure, Except.pure, Nat.add_zero, Option.getD_some]
      simp only [Nat.add_assoc, Nat.add_comm 1]

theorem sealed_eq_draft (h : ∀ blk ∈ b.blocks, blk.terminator.isSome) :
    b.sealed = .ok b.draft := by
  rw [sealed, sealBlocks_eq 0 h]
  simp only [ok_bind, Nat.zero_add]
  rfl

end Builder

end FieldSSA
