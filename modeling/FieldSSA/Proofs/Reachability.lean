import FieldSSA.Function.Walk

namespace FieldSSA

namespace Function

variable {f : Function}

/-- Identifiers that control can get to from the entry. -/
inductive Reachable (f : Function) : BlockId → Prop
  | entry {id : BlockId} : f.entry?.map Block.id = some id → f.Reachable id
  | next {id id' : BlockId} {b : Block} :
      f.Reachable id → f.block? id = some b → id' ∈ b.successors → f.Reachable id'

/-- The walk stays among identifiers that hold the stack and are closed under edges. -/
theorem walkFrom_sound {P : BlockId → Prop}
    (hnext : ∀ id b, P id → f.block? id = some b → ∀ id' ∈ b.successors, P id')
    {stack seen : List BlockId} (hstack : ∀ id ∈ stack, P id) :
    ∀ id ∈ f.walkFrom stack seen, P id ∧ (f.block? id).isSome := by
  fun_induction walkFrom f stack seen with
  | case1 seen => simp
  | case2 seen id rest hid ih => exact ih (List.forall_mem_cons.mp hstack).2
  | case3 seen id rest hid hnone ih => exact ih (List.forall_mem_cons.mp hstack).2
  | case4 seen id rest hid b hb hless ih =>
      obtain ⟨hP, hrest⟩ := List.forall_mem_cons.mp hstack
      refine List.forall_mem_cons.mpr ⟨⟨hP, by simp [hb]⟩, ih ?_⟩
      refine List.forall_mem_append.mpr ⟨?_, hrest⟩
      exact fun id' hid' => hnext id b hP hb id' (List.mem_filter.mp hid').1

theorem walkFrom_stack {stack seen : List BlockId} {id : BlockId} (hid : id ∈ stack)
    (hblock : (f.block? id).isSome) : id ∈ seen ++ f.walkFrom stack seen := by
  fun_induction walkFrom f stack seen with
  | case1 seen => simp at hid
  | case2 seen id' rest hseen ih =>
      rcases List.mem_cons.mp hid with rfl | hmem
      · exact List.mem_append_left _ hseen
      · exact ih hmem
  | case3 seen id' rest hseen hnone ih =>
      rcases List.mem_cons.mp hid with rfl | hmem
      · simp [hnone] at hblock
      · rcases List.mem_cons.mp (ih hmem) with rfl | hfound
        · simp [hnone] at hblock
        · exact hfound
  | case4 seen id' rest hseen b hb hless ih =>
      rcases List.mem_cons.mp hid with rfl | hmem
      · simp
      · exact List.perm_middle.mem_iff.mpr (ih (List.mem_append_right _ hmem))

theorem walkFrom_next {stack seen : List BlockId} {id id' : BlockId} {b : Block}
    (hid : id ∈ f.walkFrom stack seen) (hb : f.block? id = some b) (hid' : id' ∈ b.successors)
    (hblock : (f.block? id').isSome) : id' ∈ seen ++ f.walkFrom stack seen := by
  fun_induction walkFrom f stack seen with
  | case1 seen => simp at hid
  | case2 seen c rest hseen ih => exact ih hid
  | case3 seen c rest hseen hnone ih =>
      rcases List.mem_cons.mp (ih hid) with rfl | hfound
      · simp [hnone] at hblock
      · exact hfound
  | case4 seen c rest hseen d hd hless ih =>
      rw [List.perm_middle.mem_iff, ← List.cons_append]
      rcases List.mem_cons.mp hid with rfl | hmem
      · obtain rfl : b = d := Option.some.inj (hb.symm.trans hd)
        -- a successor that was seen before is not on the stack
        by_cases hold : id' ∈ id :: seen
        · exact List.mem_append_left _ hold
        · refine walkFrom_stack (List.mem_append_left _ ?_) hblock
          exact List.mem_filter.mpr ⟨hid', by simpa using hold⟩
      · exact ih hmem

theorem mem_walk_iff {id : BlockId} :
    id ∈ f.walk ↔ f.Reachable id ∧ (f.block? id).isSome := by
  cases hentry : f.entry? with
  | none =>
      have hnot : ¬ f.Reachable id := by
        intro h
        induction h with
        | entry h => simp [hentry] at h
        | next _ _ _ ih => exact ih
      simp [walk, hentry, hnot]
  | some b =>
      simp only [walk, hentry]
      constructor
      · refine walkFrom_sound (fun _ _ h hb _ hmem => h.next hb hmem) ?_ id
        simpa using Reachable.entry (by simp [hentry])
      · rintro ⟨h, hblock⟩
        induction h with
        | entry h =>
            obtain rfl : b.id = _ := by simpa [hentry] using h
            have hfound : b.id ∈ [] ++ f.walkFrom [b.id] [] :=
              walkFrom_stack (List.mem_singleton_self _) hblock
            exact hfound
        | next _ hb hmem ih =>
            simpa using walkFrom_next (ih (by simp [hb])) hb hmem hblock

end Function

end FieldSSA
