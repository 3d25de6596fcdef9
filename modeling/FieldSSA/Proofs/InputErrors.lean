import FieldSSA.Proofs.BuilderHistory
import FieldSSA.Proofs.Runs
import FieldSSA.Proofs.TypeSafety

namespace FieldSSA

/-- The error for arguments that do not match parameter types: another number of them, or the
first one of another type. -/
inductive Refused (types : List Ty) (args : List Scalar) : RunError → Prop
  | count :
      args.length ≠ types.length →
        Refused types args (.argumentCount types.length args.length)
  | type {before after : List (Scalar × Ty)} {arg : Scalar} {expected : Ty} :
      args.length = types.length → args.zip types = before ++ (arg, expected) :: after →
        (∀ p ∈ before, p.1.ty = p.2) → arg.ty ≠ expected →
          Refused types args (.argumentType before.length expected arg.ty)

namespace Intrinsic

variable {callee : Intrinsic} {args : List Scalar}

theorem length_of_compute {outputs : List Scalar} (h : callee.compute args = .ok outputs) :
    outputs.length = callee.results.length := by
  revert h
  fun_cases compute callee args with
  | case9 | case13 => rintro ⟨⟩
  | _ =>
      rintro ⟨⟩
      rfl

theorem compute_failsIn :
    FailsIn (fun e => e = .divisionByZero .u32Divmod ∨ e.isInputError = false)
      (callee.compute args) := by
  fun_cases compute callee args with
  | case9 => exact .error (.inl rfl)
  | case13 => exact .error (.inr rfl)
  | _ => exact .ok _

end Intrinsic

namespace Frame

variable {fr : Frame}

theorem read_failsIn (v : ValueId) : FailsIn (·.isInputError = false) (fr.read v) := by
  unfold read
  split
  · exact .ok _
  · exact .error rfl

theorem readAll_failsIn (vs : List ValueId) :
    FailsIn (·.isInputError = false) (fr.readAll vs) :=
  .mapM fun v _ => read_failsIn v

theorem write_failsIn (v : ValueId) (data : Scalar) :
    FailsIn (·.isInputError = false) (fr.write v data) := by
  unfold write
  split
  · exact .ok _
  · exact .error rfl

end Frame

namespace Function

variable {f : Function} {fr : Frame} {s next : MachineState}

/-- Two numbers in a function that should be the same. -/
inductive Misfits (f : Function) : Nat → Nat → Prop
  /-- The parameters of the entry block and those of the signature. -/
  | entry {b : Block} :
      f.block? .entry = some b → b.params.length ≠ f.signature.params.length →
        f.Misfits b.params.length f.signature.params.length
  /-- The parameters of a block and the arguments of a branch to it. -/
  | edge {b target : Block} {edge : Edge} :
      b ∈ f.blocks → edge ∈ b.terminator.successors → f.block? edge.dest = some target →
        target.params.length ≠ edge.args.length →
          f.Misfits target.params.length edge.args.length
  /-- The results of a call and those of its contract. -/
  | call {b : Block} {callee : Intrinsic} {args results : List ValueId} :
      b ∈ f.blocks → .call callee args results ∈ b.instructions →
        results.length ≠ callee.results.length →
          f.Misfits results.length callee.results.length

theorem Misfits.not_wellFormed {expected found : Nat} (h : f.Misfits expected found) :
    ¬ f.WellFormed := by
  intro hw
  cases h with
  | entry hb hne =>
      obtain ⟨b', hb', htypes⟩ := hw.entry
      have hget : f.blocks[0]? = some b' := by rw [← List.head?_eq_getElem?, ← hb', entry?]
      obtain rfl : b' = _ := Option.some.inj (hget.symm.trans (Option.filter_eq_some_iff.mp hb).1)
      exact hne htypes.length_eq
  | @edge b target edge hb hedge htarget hne =>
      have hterm := (hw.blocks b hb).terminator
      have htyped : f.EdgeTyped edge := by
        cases ht : b.terminator <;> simp_all [Terminator.successors, TerminatorTyped]
        rcases hedge with rfl | rfl
        · exact hterm.2.1
        · exact hterm.2.2
      obtain ⟨target', htarget', hargs⟩ := htyped
      obtain rfl : target' = target := Option.some.inj (htarget'.symm.trans htarget)
      exact hne hargs.length_eq.symm
  | @call b callee args results hb hcall hne =>
      obtain ⟨-, hresults⟩ := (hw.blocks b hb).instructions.of_mem _ hcall
      exact hne hresults.length_eq

/-- Errors that a run may end in once its arguments are accepted. -/
inductive Arises (f : Function) : RunError → Prop
  | division : f.Arises (.divisionByZero .u32Divmod)
  | misfit {expected found : Nat} :
      f.Misfits expected found → f.Arises (.argumentCount expected found)
  | other {e : RunError} : e.isInputError = false → f.Arises e

theorem checkData_failsIn (v : ValueId) (data : Scalar) :
    FailsIn (·.isInputError = false) (f.checkData v data) := by
  unfold checkData
  split
  · exact .error rfl
  · split
    · exact .ok _
    · exact .error rfl

theorem bindAll_failsIn (pairs : List (ValueId × Scalar)) :
    FailsIn (·.isInputError = false) (f.bindAll fr pairs) := by
  induction pairs generalizing fr with
  | nil => exact .ok _
  | cons p rest ih =>
      obtain ⟨v, data⟩ := p
      exact (checkData_failsIn v data).bind fun _ _ =>
        (Frame.write_failsIn v data).bind fun _ _ => ih

theorem enter_failsIn (visited : List BlockId) {dest : BlockId} {values : List Scalar}
    (hfits : ∀ b, f.block? dest = some b → b.params.length ≠ values.length →
      f.Misfits b.params.length values.length) :
    FailsIn f.Arises (f.enter fr visited dest values) := by
  unfold enter
  split
  · exact .error (.other rfl)
  · rename_i b hb
    split
    · rename_i hne
      exact .error (.misfit (hfits b hb hne))
    · exact ((bindAll_failsIn _).mono fun _ => .other).bind fun _ _ => .ok _

theorem execute_failsIn {b : Block} {i : Instruction} (hb : b ∈ f.blocks)
    (hi : i ∈ b.instructions) : FailsIn f.Arises (f.execute fr i) := by
  cases i with
  | const result imm => exact (Frame.write_failsIn result imm).mono fun _ => .other
  | cmp result pred lhs rhs =>
      refine ((Frame.read_failsIn lhs).mono fun _ => .other).bind fun x _ => ?_
      refine ((Frame.read_failsIn rhs).mono fun _ => .other).bind fun y _ => ?_
      split
      · exact (Frame.write_failsIn result _).mono fun _ => .other
      · exact .error (.other rfl)
  | call callee args results =>
      refine ((Frame.readAll_failsIn args).mono fun _ => .other).bind fun data _ => ?_
      have hcompute : FailsIn f.Arises (callee.compute data) := by
        refine Intrinsic.compute_failsIn.mono ?_
        rintro e (rfl | he)
        · exact .division
        · exact .other he
      refine hcompute.bind fun outputs houtputs => ?_
      have hlen := Intrinsic.length_of_compute houtputs
      split
      · rename_i hne
        refine .error (.misfit ?_)
        rw [hlen]
        exact .call hb hi fun h => hne (hlen.trans h.symm)
      · exact (bindAll_failsIn _).mono fun _ => .other

theorem branch_failsIn {b : Block} {edge : Edge} (hb : b ∈ f.blocks)
    (hedge : edge ∈ b.terminator.successors) :
    FailsIn f.Arises (do
      let values ← fr.readAll edge.args
      let next ← f.enter fr s.visited edge.dest values
      return Progress.running next) := by
  refine ((Frame.readAll_failsIn edge.args).mono fun _ => .other).bind fun values hvalues => ?_
  have hlen : edge.args.length = values.length := (Frame.readAll_eq_ok_iff.mp hvalues).length_eq
  refine FailsIn.bind (enter_failsIn s.visited ?_) fun _ _ => .ok _
  intro target htarget hne
  rw [← hlen] at hne ⊢
  exact .edge hb hedge htarget hne

theorem readCondition_failsIn (v : ValueId) :
    FailsIn (·.isInputError = false) (readCondition fr v) := by
  refine (Frame.read_failsIn v).bind fun data _ => ?_
  split
  · exact .ok _
  · exact .error rfl

/-- The code ahead of a run is code of a block. -/
def InBlock (f : Function) (s : MachineState) : Prop :=
  ∃ b ∈ f.blocks, s.pending ⊆ b.instructions ∧ s.terminator = b.terminator

theorem Entered.inBlock {visited : List BlockId} {steps : Nat} {dest : BlockId}
    (h : f.Entered visited steps dest s) : f.InBlock s := by
  obtain ⟨⟨b, hb, hpending, hterm⟩, -, -⟩ := h
  exact ⟨b, (mem_blocks_of_block? hb).1, by rw [hpending]; exact List.Subset.refl _, hterm⟩

theorem InBlock.step (h : f.InBlock s) (hstep : f.step s = .ok (.running next)) :
    f.InBlock next := by
  rcases step_cases hstep with ⟨i, rest, fr', hpending, -, hp⟩ | ⟨edge, -, next', -, hp, hnext⟩ |
    ⟨values, data, -, -, hp⟩
  · cases hp
    obtain ⟨b, hb, hsub, hterm⟩ := h
    rw [hpending, List.cons_subset] at hsub
    exact ⟨b, hb, hsub.2, hterm⟩
  · cases hp
    exact hnext.inBlock
  · cases hp

theorem InBlock.step_failsIn (h : f.InBlock s) : FailsIn f.Arises (f.step s) := by
  obtain ⟨b, hb, hsub, hterm⟩ := h
  unfold Function.step
  cases hpending : s.pending with
  | cons i rest =>
      rw [hpending, List.cons_subset] at hsub
      exact (execute_failsIn hb hsub.1).bind fun _ _ => .ok _
  | nil =>
      have hedges : ∀ edge ∈ s.terminator.successors, edge ∈ b.terminator.successors := by
        rw [hterm]
        exact fun _ => id
      cases ht : s.terminator with
      | br edge => exact branch_failsIn hb (hedges edge (by simp [ht, Terminator.successors]))
      | condBr cond onTrue onFalse =>
          refine ((readCondition_failsIn cond).mono fun _ => .other).bind fun taken _ => ?_
          refine branch_failsIn hb (hedges _ ?_)
          cases taken <;> simp [ht, Terminator.successors]
      | ret values =>
          exact ((Frame.readAll_failsIn values).mono fun _ => .other).bind fun _ _ => .ok _

theorem InBlock.runFrom_failsIn (h : f.InBlock s) (limit budget : Nat) :
    FailsIn f.Arises (f.runFrom limit budget s) := by
  induction budget generalizing s with
  | zero => exact .error (.other rfl)
  | succ budget ih =>
      unfold runFrom
      cases hstep : f.step s with
      | error e => exact .error (h.step_failsIn e hstep)
      | ok p =>
          cases p with
          | running next => exact ih (h.step hstep)
          | finished data => exact .ok _

/-- The check of arguments stops at the first one of another type. -/
theorem checkArguments_cases (index : Nat) (pairs : List (Scalar × Ty)) :
    (∀ p ∈ pairs, p.1.ty = p.2) ∧ checkArguments index pairs = .ok () ∨
      ∃ before arg expected after, pairs = before ++ (arg, expected) :: after ∧
        (∀ p ∈ before, p.1.ty = p.2) ∧ arg.ty ≠ expected ∧
          checkArguments index pairs =
            .error (.argumentType (index + before.length) expected arg.ty) := by
  induction pairs generalizing index with
  | nil => exact .inl ⟨by simp, rfl⟩
  | cons p rest ih =>
      obtain ⟨arg, expected⟩ := p
      by_cases hty : arg.ty = expected
      · rw [checkArguments, if_pos hty]
        rcases ih (index + 1) with ⟨hall, hok⟩ |
          ⟨before, arg', expected', after, rfl, hbefore, hne, herror⟩
        · exact .inl ⟨List.forall_mem_cons.mpr ⟨hty, hall⟩, hok⟩
        · refine .inr ⟨(arg, expected) :: before, arg', expected', after, rfl,
            List.forall_mem_cons.mpr ⟨hty, hbefore⟩, hne, ?_⟩
          rw [herror, List.length_cons, Nat.add_assoc, Nat.add_comm 1]
      · exact .inr ⟨[], arg, expected, rest, rfl, by simp, hty, by simp [checkArguments, hty]⟩

theorem map_ty_eq_iff {args : List Scalar} {types : List Ty} (hlen : args.length = types.length) :
    args.map Scalar.ty = types ↔ ∀ p ∈ args.zip types, p.1.ty = p.2 := by
  induction args generalizing types with
  | nil => simp [List.eq_nil_of_length_eq_zero hlen.symm]
  | cons a rest ih =>
      cases types with
      | nil => simp at hlen
      | cons ty types => simp [ih (by simpa using hlen)]

/-- A run begins with the check of its arguments: those that do not match are refused, and the
others are taken to the entry. -/
theorem run_start (f : Function) (limit : Nat) (args : List Scalar) :
    args.map Scalar.ty ≠ f.signature.params ∧
        (∃ e, f.run limit args = .error e ∧ Refused f.signature.params args e) ∨
      args.map Scalar.ty = f.signature.params ∧
        f.run limit args = (f.enter (.ofSize f.valueTypes.length) [] .entry args >>=
          f.runFrom limit limit) := by
  by_cases hlen : args.length = f.signature.params.length
  · rcases checkArguments_cases 0 (args.zip f.signature.params) with ⟨hall, hok⟩ |
      ⟨before, arg, expected, after, hzip, hbefore, hne, herror⟩
    · refine .inr ⟨(map_ty_eq_iff hlen).mpr hall, ?_⟩
      rw [run, if_neg (not_not.mpr hlen), hok]
      rfl
    · rw [Nat.zero_add] at herror
      refine .inl ⟨?_, _, ?_, .type hlen hzip hbefore hne⟩
      · rw [Ne, map_ty_eq_iff hlen, hzip]
        exact fun hall => hne (hall (arg, expected) (by simp))
      · rw [run, if_neg (not_not.mpr hlen), herror]
        rfl
  · refine .inl ⟨?_, _, if_pos hlen, .count hlen⟩
    intro h
    exact hlen (by rw [← h, List.length_map])

/-- An error that is laid to the arguments is a refusal of arguments that do not match the
signature. Of arguments that match it is a division by zero, or the function was not verified
and two numbers in it do not fit. -/
theorem run_input_error (f : Function) (limit : Nat) (args : List Scalar) (e : RunError)
    (h : f.run limit args = .error e) (hinput : e.isInputError = true) :
    args.map Scalar.ty ≠ f.signature.params ∧ Refused f.signature.params args e ∨
      args.map Scalar.ty = f.signature.params ∧
        (e = .divisionByZero .u32Divmod ∨
          ∃ expected found, e = .argumentCount expected found ∧ f.Misfits expected found ∧
            f.verify.errors ≠ []) := by
  rcases f.run_start limit args with ⟨hne, e', he', hrefused⟩ | ⟨hargs, hrun⟩
  · rw [he'] at h
    cases h
    exact .inl ⟨hne, hrefused⟩
  · refine .inr ⟨hargs, ?_⟩
    have hcount : args.length = f.signature.params.length := by rw [← hargs, List.length_map]
    have henter : FailsIn f.Arises (f.enter (.ofSize f.valueTypes.length) [] .entry args) := by
      refine enter_failsIn [] fun b hb hne => ?_
      rw [hcount] at hne ⊢
      exact .entry hb hne
    have harises : f.Arises e := by
      rw [hrun] at h
      exact henter.bind (fun s hs => (entered_of_enter hs).inBlock.runFrom_failsIn limit limit) e h
    cases harises with
    | division => exact .inl rfl
    | misfit hmisfits =>
        refine .inr ⟨_, _, rfl, hmisfits, ?_⟩
        rw [Ne, f.verify_errors_eq_nil_iff]
        exact hmisfits.not_wellFormed
    | other hother => simp [hother] at hinput

/-- A function whose entry branches without the argument that the block takes. -/
def bareBranch : Function where
  signature := ⟨"f", [.u32], [.u32]⟩
  blocks := [⟨⟨0⟩, [⟨0⟩], [], .br ⟨⟨1⟩, []⟩⟩, ⟨⟨1⟩, [⟨1⟩], [], .ret [⟨1⟩]⟩]
  valueTypes := [.u32, .u32]

theorem bareBranch_input_error :
    bareBranch.run 10 [.u32 5] = .error (.argumentCount 1 0) ∧ bareBranch.Misfits 1 0 ∧
      bareBranch.verify.errors ≠ [] := by
  have hrun : bareBranch.run 10 [.u32 5] = .error (.argumentCount 1 0) := by decide
  rcases run_input_error bareBranch 10 [.u32 5] _ hrun rfl with ⟨hne, -⟩ | ⟨-, hzero | hmisfit⟩
  · exact absurd rfl hne
  · cases hzero
  · obtain ⟨_, _, ⟨⟩, hmisfits, herrors⟩ := hmisfit
    exact ⟨hrun, hmisfits, herrors⟩

/-- It can be built and sealed, and a run on the argument that its signature asks for is told that
the number of arguments is wrong. -/
theorem bareBranch_blames_arguments :
    ((Builder.ofSignature bareBranch.signature).after
        [.createBlock [.u32], .br ⟨⟨1⟩, []⟩, .switchTo ⟨1⟩, .ret [⟨1⟩]]).sealed = .ok bareBranch ∧
      [Scalar.u32 5].map Scalar.ty = bareBranch.signature.params ∧
      ∃ e, bareBranch.run 10 [.u32 5] = .error e ∧ e.isInputError = true ∧
        ∀ callee, e ≠ .divisionByZero callee := by
  exact ⟨rfl, rfl, .argumentCount 1 0, by decide, rfl, by simp⟩

end Function

end FieldSSA
