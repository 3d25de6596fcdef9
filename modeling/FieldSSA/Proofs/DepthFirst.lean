import FieldSSA.Proofs.TypeSafety

namespace FieldSSA

namespace Function

variable {f : Function}

theorem unseen_concat_lt {id : BlockId} {b : Block} {seen : List BlockId}
    (h : f.block? id = some b) (hid : id ∉ seen) : f.unseen (seen ++ [id]) < f.unseen seen := by
  have hsame : f.unseen (seen ++ [id]) = f.unseen (id :: seen) := by
    simp [unseen, and_comm]
  rw [hsame]
  exact unseen_cons_lt h hid

mutual

/-- What the recursive search finds from one identifier, in preorder: the block, and then what it
finds from the successors of the block. -/
def search (f : Function) (seen : List BlockId) (id : BlockId) : List BlockId :=
  if hid : id ∈ seen then []
  else match h : f.block? id with
    | none => []
    | some b =>
      have : f.unseen (seen ++ [id]) < f.unseen seen := unseen_concat_lt h hid
      id :: f.searchAll (seen ++ [id]) b.successors
termination_by (f.unseen seen, 0)
decreasing_by exact Prod.Lex.left _ _ this

/-- Searches from one identifier after the other. What one has found is seen by the next. -/
def searchAll (f : Function) (seen : List BlockId) : List BlockId → List BlockId
  | [] => []
  | id :: rest =>
    let found := f.search seen id
    found ++ f.searchAll (seen ++ found) rest
termination_by ids => (f.unseen seen, ids.length)
decreasing_by
  · exact Prod.Lex.right _ (by simp)
  · exact Prod.Lex.right' _ (f.unseen_le_of_subset (List.subset_append_left seen _)) (by simp)

end

/-- The blocks in the order of the recursive search from the entry. -/
def preorder (f : Function) : List BlockId :=
  match f.entry? with
  | none => []
  | some b => f.search [] b.id

theorem search_of_mem {seen : List BlockId} {id : BlockId} (hid : id ∈ seen) :
    f.search seen id = [] := by
  rw [search, dif_pos hid]

theorem search_of_none {seen : List BlockId} {id : BlockId} (h : f.block? id = none) :
    f.search seen id = [] := by
  rw [search]
  split
  · rfl
  · split
    · rfl
    · simp_all

theorem search_of_some {seen : List BlockId} {id : BlockId} {b : Block} (hid : id ∉ seen)
    (h : f.block? id = some b) :
    f.search seen id = id :: f.searchAll (seen ++ [id]) b.successors := by
  rw [search, dif_neg hid]
  split
  · simp_all
  · simp_all

theorem searchAll_cons (seen : List BlockId) (id : BlockId) (rest : List BlockId) :
    f.searchAll seen (id :: rest) =
      f.search seen id ++ f.searchAll (seen ++ f.search seen id) rest := by
  rw [searchAll]

theorem searchAll_append (seen ids ids' : List BlockId) :
    f.searchAll seen (ids ++ ids') =
      f.searchAll seen ids ++ f.searchAll (seen ++ f.searchAll seen ids) ids' := by
  induction ids generalizing seen with
  | nil => simp [searchAll]
  | cons id rest ih =>
      rw [List.cons_append, searchAll_cons, searchAll_cons, ih]
      simp only [List.append_assoc]

theorem search_eq_nil {seen : List BlockId} {id : BlockId}
    (h : (f.block? id).isSome → id ∈ seen) : f.search seen id = [] := by
  cases hblock : f.block? id with
  | none => exact search_of_none hblock
  | some b => exact search_of_mem (h (by simp [hblock]))

/-- Identifiers that a search would find nothing from can be left out before it starts. -/
theorem searchAll_filter {p : BlockId → Bool} {seen : List BlockId} (ids : List BlockId)
    (h : ∀ id, p id = false → (f.block? id).isSome → id ∈ seen) :
    f.searchAll seen (ids.filter p) = f.searchAll seen ids := by
  induction ids generalizing seen with
  | nil => rfl
  | cons id rest ih =>
      cases hp : p id with
      | true =>
          rw [List.filter_cons_of_pos hp, searchAll_cons, searchAll_cons]
          rw [ih fun id' hid' hblock => List.mem_append_left _ (h id' hid' hblock)]
      | false =>
          rw [List.filter_cons_of_neg (by simp [hp]), searchAll_cons, search_eq_nil (h id hp),
            List.append_nil, List.nil_append]
          exact ih h

/-- The walk visits its stack as calls of the recursive search, one after the other. The walk also
marks identifiers without a block, which the search does not. -/
theorem walkFrom_eq_searchAll (stack : List BlockId) {seen marked : List BlockId}
    (h : ∀ id, (f.block? id).isSome → (id ∈ seen ↔ id ∈ marked)) :
    f.walkFrom stack seen = f.searchAll marked stack := by
  fun_induction walkFrom f stack seen generalizing marked with
  | case1 seen => simp [searchAll]
  | case2 seen id rest hid ih =>
      rw [searchAll_cons, search_eq_nil fun hblock => (h id hblock).mp hid, List.append_nil,
        List.nil_append]
      exact ih h
  | case3 seen id rest hid hnone ih =>
      rw [searchAll_cons, search_of_none hnone, List.append_nil, List.nil_append]
      refine ih fun id' hblock => ?_
      have hne : id' ≠ id := by
        rintro rfl
        simp [hnone] at hblock
      simpa [hne] using h id' hblock
  | case4 seen id rest hid b hb hless ih =>
      have hid' : id ∉ marked := fun hmem => hid ((h id (by simp [hb])).mpr hmem)
      have hmarked : ∀ id', (f.block? id').isSome → (id' ∈ id :: seen ↔ id' ∈ marked ++ [id]) := by
        intro id' hblock
        simp [h id' hblock, or_comm]
      rw [searchAll_cons, search_of_some hid' hb, ih hmarked, searchAll_append, searchAll_filter]
      · simp
      · intro id' hseen hblock
        exact (hmarked id' hblock).mp (not_not.mp (of_decide_eq_false hseen))

theorem walk_eq_preorder (f : Function) : f.walk = f.preorder := by
  unfold walk preorder
  cases f.entry? with
  | none => rfl
  | some b =>
      simp only
      rw [walkFrom_eq_searchAll [b.id] fun _ _ => Iff.rfl, searchAll_cons]
      simp [searchAll]

theorem nodup_walkFrom (stack seen : List BlockId) :
    (f.walkFrom stack seen).Nodup ∧ seen.Disjoint (f.walkFrom stack seen) := by
  fun_induction walkFrom f stack seen with
  | case1 seen => simp
  | case2 seen id rest hid ih => exact ih
  | case3 seen id rest hid hnone ih => exact ⟨ih.1, (List.disjoint_cons_left.mp ih.2).2⟩
  | case4 seen id rest hid b hb hless ih =>
      rw [List.disjoint_cons_left] at ih
      rw [List.nodup_cons, List.disjoint_cons_right]
      exact ⟨⟨ih.2.1, ih.1⟩, hid, ih.2.2⟩

theorem nodup_walk (f : Function) : f.walk.Nodup := by
  unfold walk
  cases f.entry? with
  | none => exact List.nodup_nil
  | some b => exact (nodup_walkFrom [b.id] []).1

theorem IdsArePlaces.nodup (hids : f.IdsArePlaces) : (f.blocks.map Block.id).Nodup := by
  have hplaces : f.blocks.map Block.id = (List.range f.blocks.length).map BlockId.mk := by
    apply List.ext_getElem
    · simp
    · intro place hplace _
      have hget := List.getElem?_eq_getElem (List.length_map Block.id ▸ hplace)
      simp [hids place _ hget]
  rw [hplaces]
  exact List.nodup_range.map fun _ _ => BlockId.mk.inj

theorem WellFormed.walk_perm (hw : f.WellFormed) (hids : f.IdsArePlaces) :
    f.walk.Perm (f.blocks.map Block.id) := by
  rw [List.perm_ext_iff_of_nodup f.nodup_walk hids.nodup]
  intro id
  constructor
  · intro hid
    obtain ⟨-, hsome⟩ := mem_walk_iff.mp hid
    obtain ⟨b, hb⟩ := Option.isSome_iff_exists.mp hsome
    obtain ⟨hmem, rfl⟩ := mem_blocks_of_block? hb
    exact List.mem_map_of_mem hmem
  · intro hid
    obtain ⟨b, hb, rfl⟩ := List.mem_map.mp hid
    exact hw.reached b hb

theorem head?_walk {b : Block} (hentry : f.entry? = some b) (hb : f.block? b.id = some b) :
    f.walk.head? = some b.id := by
  rw [walk_eq_preorder]
  simp only [preorder, hentry]
  rw [search_of_some List.not_mem_nil hb, List.head?_cons]

/-- The walk is the recursive depth-first search in preorder. It lists the blocks that control can
get to from the entry, each once, and nothing else; in a verified function whose identifiers are
places these are all blocks, and the entry is the first. -/
theorem walk_depthFirst (f : Function) :
    f.walk = f.preorder ∧ f.walk.Nodup ∧
      (∀ id, id ∈ f.walk ↔ f.Reachable id ∧ (f.block? id).isSome) ∧
      (f.verify.errors = [] → f.IdsArePlaces →
        f.walk.Perm (f.blocks.map Block.id) ∧ f.walk.head? = some .entry) := by
  refine ⟨f.walk_eq_preorder, f.nodup_walk, fun _ => mem_walk_iff, ?_⟩
  intro hverify hids
  have hw := f.verify_errors_eq_nil_iff.mp hverify
  obtain ⟨b, hb, -⟩ := hw.entry
  have hblock := block?_entry hids hb
  have hid : b.id = .entry := (mem_blocks_of_block? hblock).2
  refine ⟨hw.walk_perm hids, ?_⟩
  rw [← hid] at hblock ⊢
  exact head?_walk hb hblock

/-- The walk through Euclid's algorithm comes to the loop and to the end. -/
theorem gcdLoop_walk_depthFirst :
    gcdLoop.verify.errors = [] ∧ gcdLoop.IdsArePlaces ∧
      gcdLoop.walk.Perm [⟨0⟩, ⟨1⟩, ⟨2⟩] ∧ gcdLoop.walk.head? = some .entry := by
  refine ⟨gcdLoop_verify_errors, gcdLoop_idsArePlaces, ?_⟩
  exact (walk_depthFirst gcdLoop).2.2.2 gcdLoop_verify_errors gcdLoop_idsArePlaces

end Function

end FieldSSA
