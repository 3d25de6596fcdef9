import FieldSSA.Proofs.BuilderHistory

namespace FieldSSA

section Computation

variable {ε σ α β : Type} {R R' : σ → σ → Prop} {m : ExceptT ε (StateM σ) α}
  {k : α → ExceptT ε (StateM σ) β}

/-- The state before a computation and the state after it are related. -/
def Moves (R : σ → σ → Prop) (m : ExceptT ε (StateM σ) α) : Prop :=
  ∀ s, R s (m s).2

/-- A computation that fails leaves the state as it was. -/
def Atomic (m : ExceptT ε (StateM σ) α) : Prop :=
  ∀ s e s', m s = (.error e, s') → s' = s

theorem Moves.mono (h : Moves R m) (himp : ∀ s s', R s s' → R' s s') : Moves R' m :=
  fun s => himp s _ (h s)

theorem Moves.bind (htrans : ∀ s s' s'', R s s' → R s' s'' → R s s'') (hm : Moves R m)
    (hk : ∀ a, Moves R (k a)) : Moves R (m >>= k) := by
  intro s
  have hfirst := hm s
  rcases hrun : m s with ⟨_ | a, s'⟩ <;> rw [hrun] at hfirst
  · rw [bind_apply_of_error hrun]
    exact hfirst
  · rw [bind_apply_of_ok hrun]
    exact htrans s s' _ hfirst (hk a s')

/-- A computation that only looks at the state is atomic with whatever atomic follows. -/
theorem Atomic.bind_of_moves_eq (hm : Moves Eq m) (hk : ∀ a, Atomic (k a)) :
    Atomic (m >>= k) := by
  intro s e s' h
  have hsame := hm s
  rcases hrun : m s with ⟨_ | a, t⟩ <;> rw [hrun] at hsame
  · rw [bind_apply_of_error hrun] at h
    exact (congrArg Prod.snd h).symm.trans hsame.symm
  · rw [bind_apply_of_ok hrun] at h
    exact (hk a t e s' h).trans hsame.symm

/-- What cannot fail may follow an atomic computation. -/
theorem Atomic.bind_of_succeeds (hm : Atomic m) (hk : ∀ a s, ∃ b s', k a s = (.ok b, s')) :
    Atomic (m >>= k) := by
  intro s e s' h
  rcases hrun : m s with ⟨err | a, t⟩
  · rw [bind_apply_of_error hrun] at h
    obtain rfl : t = s' := congrArg Prod.snd h
    exact hm s err t hrun
  · rw [bind_apply_of_ok hrun] at h
    obtain ⟨b, t', hb⟩ := hk a t
    rw [hb] at h
    cases h

end Computation

namespace Build

theorem moves_eq_block (id : BlockId) : Moves Eq (block id) := by
  intro b
  cases h : b.block? id with
  | none => rw [block_of_none h]
  | some blk => rw [block_of_block? h]

theorem moves_eq_openBlock : Moves Eq openBlock := by
  intro b
  rw [openBlock, bind_apply_of_ok (get_apply b)]
  cases b.current with
  | none => rfl
  | some id => cases h : b.isTerminated id <;> simp only [h] <;> rfl

theorem atomic_push (i : Instruction) (types : List Ty) : Atomic (push i types) :=
  .bind_of_moves_eq moves_eq_openBlock fun _ _ _ _ h => by cases h

theorem atomic_terminate (t : Terminator) : Atomic (terminate t) :=
  .bind_of_moves_eq moves_eq_openBlock fun _ _ _ _ h => by cases h

/-- An instruction is added after a look at the builder, and before its results are returned. -/
theorem atomic_instruction {α β : Type} {look : Build α} {i : α → Instruction} {types : List Ty}
    {result : α → Build β} (hlook : Moves Eq look)
    (hresult : ∀ a b, ∃ r b', result a b = (.ok r, b')) :
    Atomic (do let a ← look; push (i a) types; result a) :=
  .bind_of_moves_eq hlook fun a => (atomic_push _ _).bind_of_succeeds fun _ => hresult a

end Build

/-- The types of the parameters of the block that a call creates. -/
def BuildCall.newBlock? : BuildCall → Option (List Ty)
  | createBlock params => some params
  | _ => none

theorem BuildCall.atomic_action (call : BuildCall) : Atomic call.action := by
  cases call with
  | createBlock params =>
      intro b e b' h
      cases h
  | switchTo id =>
      refine .bind_of_moves_eq (Build.moves_eq_block id) fun _ b e b' h => ?_
      cases h
  | const imm =>
      refine Atomic.bind_of_succeeds ?_ fun _ b => ⟨_, b, rfl⟩
      exact Build.atomic_instruction (fun _ => rfl) fun _ b => ⟨_, b, rfl⟩
  | cmp pred lhs rhs =>
      refine Atomic.bind_of_succeeds ?_ fun _ b => ⟨_, b, rfl⟩
      exact Build.atomic_instruction (fun _ => rfl) fun _ b => ⟨_, b, rfl⟩
  | call callee args =>
      refine Atomic.bind_of_succeeds ?_ fun _ b => ⟨_, b, rfl⟩
      exact Build.atomic_instruction (fun _ => rfl) fun _ b => ⟨_, b, rfl⟩
  | br edge =>
      exact .bind_of_moves_eq (Build.moves_eq_block _) fun _ => Build.atomic_terminate _
  | condBr cond onTrue onFalse =>
      refine .bind_of_moves_eq (Build.moves_eq_block _) fun _ => ?_
      exact .bind_of_moves_eq (Build.moves_eq_block _) fun _ => Build.atomic_terminate _
  | ret values => exact Build.atomic_terminate _

namespace Builder

/-- Two builders have as many blocks. -/
def SameSize (b b' : Builder) : Prop :=
  b'.blocks.length = b.blocks.length

theorem SameSize.trans (b b' b'' : Builder) (h : b.SameSize b') (h' : b'.SameSize b'') :
    b.SameSize b'' :=
  Eq.trans h' h

theorem sameSize_of_eq (b b' : Builder) (h : b = b') : b.SameSize b' :=
  h ▸ rfl

end Builder

namespace Build

open Builder

theorem moves_sameSize_push (i : Instruction) (types : List Ty) :
    Moves SameSize (push i types) := by
  refine .bind SameSize.trans (moves_eq_openBlock.mono sameSize_of_eq) fun id b => ?_
  exact List.length_modify _ _ _

theorem moves_sameSize_terminate (t : Terminator) : Moves SameSize (terminate t) := by
  refine .bind SameSize.trans (moves_eq_openBlock.mono sameSize_of_eq) fun id b => ?_
  exact List.length_modify _ _ _

theorem moves_sameSize_instruction {α β : Type} {look : Build α} {i : α → Instruction}
    {types : List Ty} {result : α → Build β} (hlook : Moves Eq look)
    (hresult : ∀ a, Moves Eq (result a)) :
    Moves SameSize (do let a ← look; push (i a) types; result a) := by
  refine .bind SameSize.trans (hlook.mono sameSize_of_eq) fun a => ?_
  exact .bind SameSize.trans (moves_sameSize_push _ _) fun _ => (hresult a).mono sameSize_of_eq

end Build

/-- Only the creation of a block changes the number of blocks. -/
theorem BuildCall.moves_sameSize_action {call : BuildCall} (h : call.newBlock? = none) :
    Moves Builder.SameSize call.action := by
  have hblock (id : BlockId) : Moves Builder.SameSize (Build.block id) :=
    (Build.moves_eq_block id).mono Builder.sameSize_of_eq
  have hterminate := Build.moves_sameSize_terminate
  cases call with
  | createBlock params => simp [newBlock?] at h
  | switchTo id => exact .bind Builder.SameSize.trans (hblock id) fun _ _ => rfl
  | const imm =>
      refine .bind Builder.SameSize.trans ?_ fun _ _ => rfl
      exact Build.moves_sameSize_instruction (fun _ => rfl) fun _ _ => rfl
  | cmp pred lhs rhs =>
      refine .bind Builder.SameSize.trans ?_ fun _ _ => rfl
      exact Build.moves_sameSize_instruction (fun _ => rfl) fun _ _ => rfl
  | call callee args =>
      refine .bind Builder.SameSize.trans ?_ fun _ _ => rfl
      exact Build.moves_sameSize_instruction (fun _ => rfl) fun _ _ => rfl
  | br edge => exact .bind Builder.SameSize.trans (hblock _) fun _ => hterminate _
  | condBr cond onTrue onFalse =>
      refine .bind Builder.SameSize.trans (hblock _) fun _ => ?_
      exact .bind Builder.SameSize.trans (hblock _) fun _ => hterminate _
  | ret values => exact hterminate _

end FieldSSA
