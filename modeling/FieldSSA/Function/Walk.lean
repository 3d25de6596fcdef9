import FieldSSA.Function.Basic

namespace FieldSSA

namespace Function

theorem mem_blocks_of_block? {f : Function} {id : BlockId} {b : Block}
    (h : f.block? id = some b) : b ∈ f.blocks ∧ b.id = id := by
  simp only [block?, Option.filter_eq_some_iff, beq_iff_eq] at h
  exact ⟨List.mem_of_getElem? h.1, h.2⟩

def unseen (f : Function) (seen : List BlockId) : Nat :=
  f.blocks.countP fun b => b.id ∉ seen

theorem unseen_le_of_subset (f : Function) {seen seen' : List BlockId} (h : seen ⊆ seen') :
    f.unseen seen' ≤ f.unseen seen := by
  refine List.countP_mono_left fun b _ hb => ?_
  simp only [decide_eq_true_eq] at hb ⊢
  exact fun hseen => hb (h hseen)

theorem unseen_cons_lt {f : Function} {id : BlockId} {b : Block} {seen : List BlockId}
    (h : f.block? id = some b) (hid : id ∉ seen) : f.unseen (id :: seen) < f.unseen seen := by
  obtain ⟨hb, rfl⟩ := mem_blocks_of_block? h
  simp only [unseen]
  generalize f.blocks = blocks at hb
  induction blocks with
  | nil => simp at hb
  | cons c rest ih =>
      have hle : rest.countP (fun c => decide (c.id ∉ b.id :: seen)) ≤
          rest.countP (fun c => decide (c.id ∉ seen)) :=
        List.countP_mono_left (by simp +contextual)
      rcases List.mem_cons.1 hb with rfl | hb
      · grind
      · have := ih hb
        grind

/-- Blocks reached from a stack of identifiers, in preorder. Each identifier is seen once, also
one that names no block, and only successors that were not yet seen go on the stack. -/
def walkFrom (f : Function) (stack seen : List BlockId) : List BlockId :=
  match stack with
  | [] => []
  | id :: rest =>
    if hid : id ∈ seen then f.walkFrom rest seen
    else match h : f.block? id with
      | none => f.walkFrom rest (id :: seen)
      | some b =>
        have : f.unseen (id :: seen) < f.unseen seen := unseen_cons_lt h hid
        -- What a block leads to is visited before the rest of the stack.
        id :: f.walkFrom (b.successors.filter (· ∉ id :: seen) ++ rest) (id :: seen)
termination_by (f.unseen seen, stack.length)
decreasing_by
  · exact Prod.Lex.right _ (by simp)
  · exact Prod.Lex.right' _ (f.unseen_le_of_subset (List.subset_cons_self id seen)) (by simp)
  · exact Prod.Lex.left _ _ this

/-- Every block that the entry reaches, once, in depth-first preorder. -/
def walk (f : Function) : List BlockId :=
  match f.entry? with
  | none => []
  | some b => f.walkFrom [b.id] []

/-- Blocks that the walk does not reach, in block order. -/
def unreachable (f : Function) : List BlockId :=
  let reached := f.walk
  (f.blocks.map Block.id).filter fun id => id ∉ reached

end Function

end FieldSSA
