import FieldSSA.Proofs.Numbering

/-!
Functions that are built by calls. Callers may give any values and blocks, and calls may fail in
between. Each call takes one of few steps, and what these steps keep holds after any calls: a
finished function is verified, and its blocks define each place of the value table once.
-/

namespace FieldSSA

/-- A call to a builder. -/
inductive BuildCall where
  | createBlock (params : List Ty)
  | switchTo (id : BlockId)
  | const (imm : Scalar)
  | cmp (pred : Predicate) (lhs rhs : ValueId)
  | call (callee : Intrinsic) (args : List ValueId)
  | br (edge : Edge)
  | condBr (cond : ValueId) (onTrue onFalse : Edge)
  | ret (values : List ValueId)

/-- What a call does. What it returns is only of use to the caller. -/
def BuildCall.action : BuildCall → Build Unit
  | createBlock params => do let _ ← Build.createBlock params; return
  | switchTo id => Build.switchTo id
  | const imm => do let _ ← Build.const imm; return
  | cmp pred lhs rhs => do let _ ← Build.cmp pred lhs rhs; return
  | call callee args => do let _ ← Build.call callee args; return
  | br edge => Build.br edge
  | condBr cond onTrue onFalse => Build.condBr cond onTrue onFalse
  | ret values => Build.ret values

namespace Builder

/-- The builder after a call, whether or not it failed. -/
def afterCall (b : Builder) (call : BuildCall) : Builder :=
  (call.action.run.run b).2

def after (b : Builder) (calls : List BuildCall) : Builder :=
  calls.foldl afterCall b

/-- An instruction whose results are the next values, with their types. -/
inductive Appends (b : Builder) : Instruction → List Ty → Prop
  | const (imm : Scalar) : b.Appends (.const ⟨b.valueTypes.length⟩ imm) [imm.ty]
  | cmp (pred : Predicate) (lhs rhs : ValueId) :
      b.Appends (.cmp ⟨b.valueTypes.length⟩ pred lhs rhs) [.bool]
  | call (callee : Intrinsic) (args : List ValueId) :
      b.Appends (.call callee args (b.fresh callee.results)) callee.results

/-- What a call can do to a builder. A call that fails does nothing. -/
inductive Step (b : Builder) : Builder → Prop
  | stay : b.Step b
  | addBlock (params : List Ty) : b.Step (b.addBlock params)
  | select {id : BlockId} {blk : OpenBlock} :
      b.block? id = some blk → b.Step { b with current := some id }
  | extend {id : BlockId} {blk : OpenBlock} {i : Instruction} {types : List Ty} :
      b.OpenAt id blk → b.Appends i types → b.Step (b.extend id [i] types)
  | close {id : BlockId} {blk : OpenBlock} {t : Terminator} :
      b.OpenAt id blk → (∀ edge ∈ t.successors, ∃ target, b.block? edge.dest = some target) →
        b.Step (b.close id t)

/-- The table is numbered by the definitions, and the current block was created. -/
structure Sound (b : Builder) : Prop where
  isNumbered : b.Numbered
  current : ∀ id, b.current = some id → ∃ blk, b.block? id = some blk

end Builder

namespace Build

variable {b : Builder} {e : IrError}

/-- The current block is open, or every use of it fails. -/
theorem openBlock_cases (hb : b.Sound) :
    (∃ id blk, b.OpenAt id blk) ∨ ∃ e, openBlock b = (.error e, b) := by
  cases hcurrent : b.current with
  | none =>
      refine .inr ⟨.builder .noCurrentBlock, ?_⟩
      rw [openBlock, bind_apply_of_ok (get_apply b)]
      simp only [hcurrent]
      rfl
  | some id =>
      obtain ⟨blk, hblk⟩ := hb.current id hcurrent
      cases ht : blk.terminator with
      | none => exact .inl ⟨id, blk, hcurrent, hblk, ht⟩
      | some t =>
          refine .inr ⟨.builder (.blockTerminated id), ?_⟩
          have hterminated : b.isTerminated id = true := by
            simp [Builder.isTerminated, hblk, ht]
          rw [openBlock, bind_apply_of_ok (get_apply b)]
          simp only [hcurrent, hterminated]
          rfl

theorem push_of_error (h : openBlock b = (.error e, b)) (i : Instruction) (types : List Ty) :
    push i types b = (.error e, b) :=
  bind_apply_of_error h _

theorem const_of_error (h : openBlock b = (.error e, b)) (imm : Scalar) :
    const imm b = (.error e, b) := by
  rw [const, bind_apply_of_ok (rfl : nextValue b = (.ok ⟨b.valueTypes.length⟩, b)),
    bind_apply_of_error (push_of_error h _ _)]

theorem cmp_of_error (h : openBlock b = (.error e, b)) (pred : Predicate) (lhs rhs : ValueId) :
    cmp pred lhs rhs b = (.error e, b) := by
  rw [cmp, bind_apply_of_ok (rfl : nextValue b = (.ok ⟨b.valueTypes.length⟩, b)),
    bind_apply_of_error (push_of_error h _ _)]

theorem call_of_error (h : openBlock b = (.error e, b)) (callee : Intrinsic)
    (args : List ValueId) : call callee args b = (.error e, b) := by
  rw [call, bind_apply_of_ok (get_apply b), bind_apply_of_error (push_of_error h _ _)]

theorem terminate_of_error (h : openBlock b = (.error e, b)) (t : Terminator) :
    terminate t b = (.error e, b) :=
  bind_apply_of_error h _

theorem block_of_none {dest : BlockId} (h : b.block? dest = none) :
    block dest b = (.error (.builder (.unknownBlock dest)), b) := by
  rw [block, bind_apply_of_ok (get_apply b)]
  simp only [h]
  rfl

end Build

namespace Builder

variable {b b' : Builder}

theorem step_of_apply {α : Type} {m : Build α} {r : Except IrError α} (h : m b = (r, b'))
    (hstep : b.Step b') : b.Step (m.run.run b).2 := by
  have hrun : m.run.run b = (r, b') := h
  rw [hrun]
  exact hstep

theorem step_block {dest : BlockId} {m : Build Unit}
    (h : ∀ target, b.block? dest = some target → b.Step (m.run.run b).2) :
    b.Step ((do let _ ← Build.block dest; m).run.run b).2 := by
  cases hdest : b.block? dest with
  | none => exact step_of_apply (bind_apply_of_error (Build.block_of_none hdest) _) .stay
  | some target =>
      exact step_of_apply (bind_apply_of_ok (Build.block_of_block? hdest) _) (h target hdest)

theorem step_instruction {α : Type} {m : Build α} (hb : b.Sound)
    (hopen : ∀ id blk, b.OpenAt id blk →
      ∃ a i types, m b = (.ok a, b.extend id [i] types) ∧ b.Appends i types)
    (herror : ∀ e, Build.openBlock b = (.error e, b) → m b = (.error e, b)) :
    b.Step ((do let _ ← m; return).run.run b).2 := by
  rcases Build.openBlock_cases hb with ⟨id, blk, h⟩ | ⟨e, h⟩
  · obtain ⟨a, i, types, hm, happends⟩ := hopen id blk h
    exact step_of_apply (bind_apply_of_ok hm _) (.extend h happends)
  · exact step_of_apply (bind_apply_of_error (herror e h) _) .stay

theorem step_terminate (hb : b.Sound) {t : Terminator}
    (ht : ∀ edge ∈ t.successors, ∃ target, b.block? edge.dest = some target) :
    b.Step ((Build.terminate t).run.run b).2 := by
  rcases Build.openBlock_cases hb with ⟨id, blk, h⟩ | ⟨e, h⟩
  · exact step_of_apply (Build.terminate_of_openAt h t) (.close h ht)
  · exact step_of_apply (Build.terminate_of_error h t) .stay

/-- Each call takes a step. -/
theorem step_afterCall (hb : b.Sound) (call : BuildCall) : b.Step (b.afterCall call) := by
  cases call with
  | createBlock params => exact .addBlock params
  | switchTo id =>
      apply step_block
      intro blk hblk
      exact .select hblk
  | const imm =>
      apply step_instruction hb
      · intro id blk h
        exact ⟨_, _, _, Build.const_of_openAt h imm, .const imm⟩
      · intro e h
        exact Build.const_of_error h imm
  | cmp pred lhs rhs =>
      apply step_instruction hb
      · intro id blk h
        exact ⟨_, _, _, Build.cmp_of_openAt h pred lhs rhs, .cmp pred lhs rhs⟩
      · intro e h
        exact Build.cmp_of_error h pred lhs rhs
  | call callee args =>
      apply step_instruction hb
      · intro id blk h
        exact ⟨_, _, _, Build.call_of_openAt h callee args, .call callee args⟩
      · intro e h
        exact Build.call_of_error h callee args
  | br edge =>
      apply step_block
      intro target htarget
      apply step_terminate hb
      simp [Terminator.successors, htarget]
  | condBr cond onTrue onFalse =>
      apply step_block
      intro target htarget
      apply step_block
      intro target' htarget'
      apply step_terminate hb
      simp [Terminator.successors, htarget, htarget']
  | ret values =>
      apply step_terminate hb
      simp [Terminator.successors]

theorem Appends.results_eq {i : Instruction} {types : List Ty} (h : b.Appends i types) :
    i.results = numbered b.valueTypes.length types.length := by
  cases h with
  | const imm => rfl
  | cmp pred lhs rhs => rfl
  | call callee args => exact fresh_eq_numbered b callee.results

theorem Step.sound (h : b.Step b') (hb : b.Sound) : b'.Sound := by
  cases h with
  | stay => exact hb
  | addBlock params =>
      refine ⟨hb.isNumbered.addBlock params, ?_⟩
      intro id hid
      obtain ⟨blk, hblk⟩ := hb.current id hid
      exact ⟨blk, List.getElem?_append_left (List.getElem?_eq_some_iff.mp hblk).1 |>.trans hblk⟩
  | @select id blk hblk =>
      refine ⟨hb.isNumbered, ?_⟩
      rintro _ ⟨⟩
      exact ⟨blk, hblk⟩
  | @extend id blk i types hopen happends =>
      have hkeeps : b.Keeps (b.extend id [i] types) :=
        .extend hopen.block (by simpa using happends.results_eq)
      refine ⟨hkeeps.isNumbered hb.isNumbered, ?_⟩
      intro other hother
      obtain ⟨blk', hblk'⟩ := hb.current other hother
      obtain ⟨blk'', hblk'', -⟩ := hkeeps.block? hblk'
      exact ⟨blk'', hblk''⟩
  | close hopen _ =>
      refine ⟨(Keeps.close hopen.block).isNumbered hb.isNumbered, ?_⟩
      rintro _ ⟨⟩

theorem ofSignature_sound (signature : Signature) : (ofSignature signature).Sound := by
  have hempty : Numbered ⟨signature, [], [], none⟩ := List.Perm.refl []
  refine ⟨hempty.addBlock signature.params, ?_⟩
  rintro _ ⟨⟩
  exact ⟨_, rfl⟩

theorem Sound.after (hb : b.Sound) (calls : List BuildCall) : (b.after calls).Sound := by
  induction calls generalizing b with
  | nil => exact hb
  | cons call rest ih => exact ih ((step_afterCall hb call).sound hb)

theorem isSome_of_sealBlocks {next : Nat} {blocks : List OpenBlock} {bs : List Block}
    (h : sealBlocks next blocks = .ok bs) : ∀ blk ∈ blocks, blk.terminator.isSome := by
  induction blocks generalizing next bs with
  | nil => simp
  | cons blk rest ih =>
      rw [sealBlocks] at h
      cases ht : blk.terminator with
      | none => simp [ht] at h
      | some t =>
          simp only [ht] at h
          obtain ⟨sealed, hsealed, -⟩ := bind_eq_ok_iff.mp h
          exact List.forall_mem_cons.mpr ⟨by simp [ht], ih hsealed⟩

theorem finish_eq_ok_iff {f : Function} :
    b.finish = .ok f ↔ b.sealed = .ok f ∧ f.verify.errors = [] := by
  rw [finish, finishWithReport]
  cases b.sealed with
  | error e => simp [Functor.map, Except.map]
  | ok g =>
      simp only [ok_bind, Function.verified, Report.isValid, Except.ok.injEq]
      by_cases hvalid : g.verify.errors = []
      · simp only [hvalid, List.isEmpty_nil, if_true, Functor.map, Except.map, Except.ok.injEq]
        exact ⟨fun heq => ⟨heq, heq ▸ hvalid⟩, fun h => h.1⟩
      · simp only [List.isEmpty_iff, hvalid, if_false, Functor.map, Except.map, reduceCtorEq,
          false_iff]
        rintro ⟨rfl, herrors⟩
        exact hvalid herrors

theorem draft_of_sealed {f : Function} (h : b.sealed = .ok f) : b.draft = f := by
  obtain ⟨bs, hbs, -⟩ := bind_eq_ok_iff.mp h
  have hdraft := sealed_eq_draft (isSome_of_sealBlocks hbs)
  exact Except.ok.inj (hdraft.symm.trans h)

end Builder

namespace Function

variable {f : Function}

/-- A function that a builder finished after some calls. -/
def Built (f : Function) : Prop :=
  ∃ signature calls, ((Builder.ofSignature signature).after calls).finish = .ok f

theorem Built.verify_errors (h : f.Built) : f.verify.errors = [] := by
  obtain ⟨signature, calls, hfinish⟩ := h
  exact (Builder.finish_eq_ok_iff.mp hfinish).2

/-- The values that the blocks define are the places of the table, each once. -/
theorem Built.definitions_perm (h : f.Built) :
    (f.blocks.flatMap Block.definitions).Perm (numbered 0 f.valueTypes.length) := by
  obtain ⟨signature, calls, hfinish⟩ := h
  have hsound := (Builder.ofSignature_sound signature).after calls
  rw [← Builder.draft_of_sealed (Builder.finish_eq_ok_iff.mp hfinish).1, Builder.definitions_draft]
  exact hsound.isNumbered

theorem gcdLoop_built : gcdLoop.Built := by
  refine ⟨gcdLoop.signature,
    [.createBlock [.u32, .u32], .br ⟨⟨1⟩, [⟨0⟩, ⟨1⟩]⟩, .switchTo ⟨1⟩,
      .call .u32Divmod [⟨2⟩, ⟨3⟩], .const (.u32 0), .cmp .eq ⟨5⟩ ⟨6⟩, .createBlock [.u32],
      .condBr ⟨7⟩ ⟨⟨2⟩, [⟨3⟩]⟩ ⟨⟨1⟩, [⟨3⟩, ⟨5⟩]⟩, .switchTo ⟨2⟩, .ret [⟨8⟩]], ?_⟩
  exact Builder.finish_eq_ok_iff.mpr ⟨rfl, gcdLoop_verify_errors⟩

end Function

end FieldSSA
