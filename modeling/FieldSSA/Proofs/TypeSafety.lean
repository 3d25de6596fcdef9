import FieldSSA.Proofs.Execution
import FieldSSA.Proofs.Reachability

namespace FieldSSA

theorem Scalar.exists_felt {a : Scalar} (h : a.ty = .felt252) : ∃ x, a = .felt x := by
  cases a <;> simp_all [Scalar.ty]

theorem Scalar.exists_u32 {a : Scalar} (h : a.ty = .u32) : ∃ x, a = .u32 x := by
  cases a <;> simp_all [Scalar.ty]

theorem Scalar.exists_bool {a : Scalar} (h : a.ty = .bool) : ∃ x, a = .bool x := by
  cases a <;> simp_all [Scalar.ty]

section Data

variable {data : List Scalar}

theorem Scalar.exists_of_map_ty {ty : Ty} (h : data.map Scalar.ty = [ty]) :
    ∃ a, data = [a] ∧ a.ty = ty := by
  simpa [List.map_eq_cons_iff] using h

theorem Scalar.exists_pair_of_map_ty {ty ty' : Ty} (h : data.map Scalar.ty = [ty, ty']) :
    ∃ a b, data = [a, b] ∧ a.ty = ty ∧ b.ty = ty' := by
  simpa [List.map_eq_cons_iff, and_assoc] using h

theorem Scalar.exists_felts (h : data.map Scalar.ty = [.felt252, .felt252]) :
    ∃ x y, data = [.felt x, .felt y] := by
  obtain ⟨a, b, rfl, ha, hb⟩ := exists_pair_of_map_ty h
  obtain ⟨x, rfl⟩ := exists_felt ha
  obtain ⟨y, rfl⟩ := exists_felt hb
  exact ⟨x, y, rfl⟩

theorem Scalar.exists_u32s (h : data.map Scalar.ty = [.u32, .u32]) :
    ∃ x y, data = [.u32 x, .u32 y] := by
  obtain ⟨a, b, rfl, ha, hb⟩ := exists_pair_of_map_ty h
  obtain ⟨x, rfl⟩ := exists_u32 ha
  obtain ⟨y, rfl⟩ := exists_u32 hb
  exact ⟨x, y, rfl⟩

end Data

/-- Arguments that fit a helper's contract give results that fit it, or a division by
zero. -/
theorem Intrinsic.compute_typed {callee : Intrinsic} {args : List Scalar}
    (h : args.map Scalar.ty = callee.params) :
    (∃ outputs, callee.compute args = .ok outputs ∧
      outputs.map Scalar.ty = callee.results) ∨
    ∃ culprit, callee.compute args = .error (.divisionByZero culprit) := by
  cases callee with
  | dup ty | storeTemp ty | rename ty =>
      obtain ⟨a, rfl, rfl⟩ := Scalar.exists_of_map_ty h
      exact .inl ⟨_, rfl, rfl⟩
  | felt252Mul | felt252Add | felt252Sub =>
      obtain ⟨x, y, rfl⟩ := Scalar.exists_felts h
      exact .inl ⟨_, rfl, rfl⟩
  | u32OverflowingAdd | u32OverflowingSub | u32Divmod =>
      obtain ⟨x, y, rfl⟩ := Scalar.exists_u32s h
      by_cases hy : y = 0 <;> simp [compute, results, Scalar.ty, hy]
  | u32ToFelt252 =>
      obtain ⟨a, rfl, ha⟩ := Scalar.exists_of_map_ty h
      obtain ⟨x, rfl⟩ := Scalar.exists_u32 ha
      exact .inl ⟨_, rfl, rfl⟩
  | u32TryFromFelt252 =>
      obtain ⟨a, rfl, ha⟩ := Scalar.exists_of_map_ty h
      obtain ⟨x, rfl⟩ := Scalar.exists_felt ha
      exact .inl ⟨_, rfl, rfl⟩

theorem Predicate.exists_holds {p : Predicate} {a b : Scalar} (h : a.ty = b.ty) :
    ∃ outcome, p.holds? a b = some outcome := by
  simp [holds?, h]

namespace Function

variable {f : Function} {fr : Frame} {scope : List ValueId}

/-- The values in scope hold data of their types. -/
structure FrameTyped (f : Function) (fr : Frame) (scope : List ValueId) : Prop where
  size : fr.registers.length = f.valueTypes.length
  holds : ∀ v ∈ scope, ∃ data, fr.read v = .ok data ∧ f.HasType v data.ty

theorem FrameTyped.write {v : ValueId} {data : Scalar} (h : f.FrameTyped fr scope)
    (hv : f.HasType v data.ty) :
    ∃ fr', fr.write v data = .ok fr' ∧ f.FrameTyped fr' (scope ++ [v]) := by
  obtain ⟨fr', hwrite⟩ := exists_write h.size hv data
  refine ⟨fr', hwrite, (Frame.length_of_write hwrite).trans h.size, ?_⟩
  intro w hw
  by_cases heq : w = v
  · subst heq
    exact ⟨data, Frame.read_of_write hwrite, hv⟩
  · rw [Frame.read_of_write_of_ne hwrite heq]
    refine h.holds w ?_
    simpa [heq] using hw

theorem FrameTyped.bindAll {vs : List ValueId} {data : List Scalar} (h : f.FrameTyped fr scope)
    (htypes : f.HasTypes vs (data.map Scalar.ty)) :
    ∃ fr', f.bindAll fr (vs.zip data) = .ok fr' ∧ f.FrameTyped fr' (scope ++ vs) := by
  induction vs generalizing fr scope data with
  | nil => exact ⟨fr, rfl, by simpa using h⟩
  | cons v rest ih =>
      cases data with
      | nil => simp [HasTypes] at htypes
      | cons d data =>
          obtain ⟨hv, hrest⟩ := List.forall₂_cons.mp htypes
          obtain ⟨mid, hwrite, hmid⟩ := h.write hv
          obtain ⟨fr', hbind, hfr'⟩ := ih hmid hrest
          refine ⟨fr', bindAll_cons_eq_ok_iff.mpr ⟨hv, mid, hwrite, hbind⟩, ?_⟩
          simpa using hfr'

theorem FrameTyped.readAll {vs : List ValueId} {types : List Ty} (h : f.FrameTyped fr scope)
    (hsub : vs ⊆ scope) (htypes : f.HasTypes vs types) :
    ∃ data, fr.readAll vs = .ok data ∧ data.map Scalar.ty = types := by
  induction htypes with
  | nil => exact ⟨[], rfl, rfl⟩
  | @cons v ty rest types hv _ ih =>
      obtain ⟨hmem, hrest⟩ := List.cons_subset.mp hsub
      obtain ⟨d, hd, hty⟩ := h.holds v hmem
      obtain ⟨data, hdata, hmap⟩ := ih hrest
      obtain rfl : d.ty = ty := Option.some.inj (hty.symm.trans hv)
      refine ⟨d :: data, ?_, by rw [List.map_cons, hmap]⟩
      rw [Frame.readAll_eq_ok_iff] at hdata ⊢
      exact .cons hd hdata

theorem execute_typed {i : Instruction} (h : f.FrameTyped fr scope)
    (hsub : i.operands ⊆ scope) (hi : f.InstructionTyped i) :
    (∃ fr', f.execute fr i = .ok fr' ∧ f.FrameTyped fr' (scope ++ i.results)) ∨
      ∃ culprit, f.execute fr i = .error (.divisionByZero culprit) := by
  cases i with
  | const result imm => exact .inl (h.write hi)
  | cmp result pred lhs rhs =>
      obtain ⟨hsame, hresult⟩ := hi
      obtain ⟨a, ha, hta⟩ := h.holds lhs (hsub (by simp [Instruction.operands]))
      obtain ⟨b, hb, htb⟩ := h.holds rhs (hsub (by simp [Instruction.operands]))
      obtain ⟨outcome, ho⟩ := Predicate.exists_holds (p := pred) (hsame _ _ hta htb)
      have hresult : f.HasType result (Scalar.bool outcome).ty := hresult
      rw [execute_cmp ha hb ho]
      exact .inl (h.write hresult)
  | call callee args results =>
      obtain ⟨hargs, hresults⟩ := hi
      have hsub : args ⊆ scope := hsub
      obtain ⟨data, hread, hdata⟩ := h.readAll hsub hargs
      rcases Intrinsic.compute_typed hdata with ⟨outputs, hcompute, houtputs⟩ | ⟨culprit, hzero⟩
      · have htypes : f.HasTypes results (outputs.map Scalar.ty) := houtputs ▸ hresults
        have hlen : outputs.length = results.length := by simpa using htypes.length_eq.symm
        rw [execute_call hread hcompute hlen]
        exact .inl (h.bindAll htypes)
      · exact .inr ⟨culprit, execute_call_error hread hzero⟩

/-- The code ahead is typed in the scope that the frame holds. -/
structure StateTyped (f : Function) (s : MachineState) (scope : List ValueId) : Prop where
  frame : f.FrameTyped s.frame scope
  pending : f.InstructionsTyped scope s.pending
  operands : s.terminator.operands ⊆ scope ++ s.pending.flatMap Instruction.results
  terminator : f.TerminatorTyped s.terminator

theorem exists_enter_of_edgeTyped {edge : Edge} (visited : List BlockId)
    (hw : f.WellFormed) (hf : f.FrameTyped fr scope) (hsub : edge.args ⊆ scope)
    (hedge : f.EdgeTyped edge) :
    ∃ data next scope', fr.readAll edge.args = .ok data ∧
      f.enter fr visited edge.dest data = .ok next ∧ f.StateTyped next scope' := by
  obtain ⟨target, htarget, hargs⟩ := hedge
  have hb := hw.blocks target (mem_blocks_of_block? htarget).1
  obtain ⟨types, hparams⟩ : ∃ types, f.HasTypes target.params types := by
    have hall : ∀ v ∈ target.params, ∃ ty, f.HasType v ty := fun v hv =>
      hb.definitions v (List.mem_append_left _ hv)
    exact ⟨_, (f.filterMap_valueType?_eq_iff hall).mp rfl⟩
  have htypes : f.HasTypes edge.args types := by
    refine List.forall₂_iff_get.mpr ⟨hargs.length_eq.trans hparams.length_eq, ?_⟩
    intro i hi hi'
    have hparam := (List.forall₂_iff_get.mp hparams).2 i (hargs.length_eq ▸ hi) hi'
    exact (List.forall₂_iff_get.mp hargs).2 i hi _ _ hparam
  obtain ⟨data, hread, hdata⟩ := hf.readAll hsub htypes
  have hdataTypes : f.HasTypes target.params (data.map Scalar.ty) := hdata ▸ hparams
  obtain ⟨fr', hbind, hfr'⟩ := hf.bindAll hdataTypes
  have hlen : target.params.length = data.length := by simpa using hdataTypes.length_eq
  have hframe : f.FrameTyped { fr' with block := edge.dest } target.params :=
    ⟨hfr'.size, fun v hv => hfr'.holds v (List.mem_append_right _ hv)⟩
  exact ⟨data, _, target.params, hread, enter_of_bindAll visited htarget hlen hbind,
    ⟨hframe, hb.instructions, hb.operands, hb.terminator⟩⟩

/-- One step of a typed state: it goes on in a typed state, returns data of the signature's
types, or divides by zero. -/
theorem step_typed {s : MachineState} (hw : f.WellFormed) (h : f.StateTyped s scope) :
    (∃ next scope', f.step s = .ok (.running next) ∧ f.StateTyped next scope') ∨
      (∃ data, f.step s = .ok (.finished data) ∧
        data.map Scalar.ty = f.signature.returns) ∨
      ∃ culprit, f.step s = .error (.divisionByZero culprit) := by
  have hframe : f.FrameTyped s.frame.ticked scope := ⟨h.frame.size, h.frame.holds⟩
  cases hp : s.pending with
  | cons i rest =>
      obtain ⟨hsub, hi, hrest⟩ := hp ▸ h.pending
      rcases execute_typed hframe hsub hi with ⟨fr', hexec, hfr'⟩ | ⟨culprit, hexec⟩
      · refine .inl ⟨_, scope ++ i.results, step_instruction hp hexec, hfr', hrest, ?_,
          h.terminator⟩
        simpa [hp] using h.operands
      · exact .inr (.inr ⟨culprit, step_instruction_error hp hexec⟩)
  | nil =>
      have hoperands : s.terminator.operands ⊆ scope := by simpa [hp] using h.operands
      have hterm := h.terminator
      cases ht : s.terminator with
      | br edge =>
          rw [ht] at hoperands hterm
          obtain ⟨data, next, scope', hread, henter, hnext⟩ :=
            exists_enter_of_edgeTyped s.visited hw hframe hoperands hterm
          exact .inl ⟨next, scope', step_br hp ht hread henter, hnext⟩
      | condBr cond onTrue onFalse =>
          rw [ht] at hoperands hterm
          obtain ⟨hcond, htrue, hfalse⟩ := hterm
          simp only [Terminator.operands, List.cons_append, List.cons_subset,
            List.append_subset] at hoperands
          obtain ⟨data, hread, hdata⟩ := hframe.holds cond hoperands.1
          obtain ⟨taken, rfl⟩ : ∃ taken, data = .bool taken :=
            Scalar.exists_bool (Option.some.inj (hdata.symm.trans hcond))
          have hsub : (if taken then onTrue else onFalse).args ⊆ scope := by
            cases taken
            · exact hoperands.2.2
            · exact hoperands.2.1
          have hedge : f.EdgeTyped (if taken then onTrue else onFalse) := by
            cases taken
            · exact hfalse
            · exact htrue
          obtain ⟨data, next, scope', hargs, henter, hnext⟩ :=
            exists_enter_of_edgeTyped s.visited hw hframe hsub hedge
          exact .inl ⟨next, scope', step_condBr hp ht hread hargs henter, hnext⟩
      | ret values =>
          rw [ht] at hoperands hterm
          obtain ⟨data, hread, hdata⟩ := hframe.readAll hoperands hterm
          exact .inr (.inl ⟨data, step_ret hp ht hread, hdata⟩)

theorem runFrom_typed {s : MachineState} (hw : f.WellFormed) (h : f.StateTyped s scope)
    (limit budget : Nat) :
    (∃ o, f.runFrom limit budget s = .ok o ∧
      o.returns.map Scalar.ty = f.signature.returns) ∨
      (∃ culprit, f.runFrom limit budget s = .error (.divisionByZero culprit)) ∨
      f.runFrom limit budget s = .error (.stepLimitExceeded limit) := by
  induction budget generalizing s scope with
  | zero => exact .inr (.inr rfl)
  | succ budget ih =>
      rcases step_typed hw h with ⟨next, scope', hstep, hnext⟩ | ⟨data, hstep, hdata⟩ |
        ⟨culprit, hstep⟩
      · simpa only [runFrom, hstep] using ih hnext
      · exact .inl ⟨_, by simp only [runFrom, hstep]; rfl, hdata⟩
      · exact .inr (.inl ⟨culprit, by simp only [runFrom, hstep]⟩)

theorem checkArguments_eq_ok {args : List Scalar} {types : List Ty} (index : Nat)
    (h : args.map Scalar.ty = types) : checkArguments index (args.zip types) = .ok () := by
  subst h
  induction args generalizing index with
  | nil => rfl
  | cons a rest ih => simpa [checkArguments] using ih (index + 1)

/-- The identifiers of blocks are their places. -/
def IdsArePlaces (f : Function) : Prop :=
  ∀ (place : Nat) (b : Block), f.blocks[place]? = some b → b.id = ⟨place⟩

theorem getElem?_zero_of_first {b : Block} (h : f.entry? = some b) : f.blocks[0]? = some b := by
  rw [← List.head?_eq_getElem?]
  exact h

theorem IdsArePlaces.block?_self (hids : f.IdsArePlaces) {b : Block} (hb : b ∈ f.blocks) :
    f.block? b.id = some b := by
  obtain ⟨place, hplace⟩ := List.getElem?_of_mem hb
  simp [block?, hids place b hplace, hplace]

theorem block?_entry (hids : f.IdsArePlaces) {b : Block} (h : f.entry? = some b) :
    f.block? .entry = some b := by
  have hget := getElem?_zero_of_first h
  simp [block?, BlockId.entry, hget, hids 0 b hget]

theorem run_eq_runFrom {args : List Scalar} {s : MachineState}
    (hargs : args.map Scalar.ty = f.signature.params)
    (henter : f.enter (.ofSize f.valueTypes.length) [] .entry args = .ok s) (limit : Nat) :
    f.run limit args = f.runFrom limit limit s := by
  have hcount : args.length = f.signature.params.length := by
    rw [← hargs, List.length_map]
  simp [run, hcount, checkArguments_eq_ok 0 hargs, henter, bind, Except.bind]

theorem exists_enter_entry (hw : f.WellFormed) (hids : f.IdsArePlaces) {args : List Scalar}
    (hargs : args.map Scalar.ty = f.signature.params) :
    ∃ s scope, f.enter (.ofSize f.valueTypes.length) [] .entry args = .ok s ∧
      f.StateTyped s scope := by
  obtain ⟨b, hb, hparams⟩ := hw.entry
  have htyped := hw.blocks b (List.mem_of_mem_head? hb)
  have hempty : f.FrameTyped (.ofSize f.valueTypes.length) [] := ⟨by simp [Frame.ofSize], by simp⟩
  have htypes : f.HasTypes b.params (args.map Scalar.ty) := hargs ▸ hparams
  have hlen : b.params.length = args.length := by simpa using htypes.length_eq
  obtain ⟨fr, hbind, hfr⟩ := hempty.bindAll htypes
  rw [List.nil_append] at hfr
  have hframe : f.FrameTyped { fr with block := .entry } b.params := ⟨hfr.size, hfr.holds⟩
  exact ⟨_, b.params, enter_of_bindAll [] (block?_entry hids hb) hlen hbind,
    ⟨hframe, htyped.instructions, htyped.operands, htyped.terminator⟩⟩

/-- A function that passes verification, run on arguments of its parameter types, returns
data of its return types, divides by zero or exceeds the limit, and fails in no other way. -/
theorem run_safe_of_verified (f : Function) (hverify : f.verify.errors = [])
    (hids : f.IdsArePlaces) (args : List Scalar)
    (hargs : args.map Scalar.ty = f.signature.params) (limit : Nat) :
    (∃ o, f.run limit args = .ok o ∧ o.returns.map Scalar.ty = f.signature.returns) ∨
      (∃ culprit, f.run limit args = .error (.divisionByZero culprit)) ∨
      f.run limit args = .error (.stepLimitExceeded limit) := by
  have hw := f.verify_errors_eq_nil_iff.mp hverify
  obtain ⟨s, scope, henter, hs⟩ := exists_enter_entry hw hids hargs
  rw [run_eq_runFrom hargs henter]
  exact runFrom_typed hw hs limit limit

/-- Euclid's algorithm: a loop that divides until the remainder is zero. -/
def gcdLoop : Function where
  signature := ⟨"gcd", [.u32, .u32], [.u32]⟩
  blocks :=
    [⟨⟨0⟩, [⟨0⟩, ⟨1⟩], [], .br ⟨⟨1⟩, [⟨0⟩, ⟨1⟩]⟩⟩,
      ⟨⟨1⟩, [⟨2⟩, ⟨3⟩],
        [.call .u32Divmod [⟨2⟩, ⟨3⟩] [⟨4⟩, ⟨5⟩], .const ⟨6⟩ (.u32 0), .cmp ⟨7⟩ .eq ⟨5⟩ ⟨6⟩],
        .condBr ⟨7⟩ ⟨⟨2⟩, [⟨3⟩]⟩ ⟨⟨1⟩, [⟨3⟩, ⟨5⟩]⟩⟩,
      ⟨⟨2⟩, [⟨8⟩], [], .ret [⟨8⟩]⟩]
  valueTypes := [.u32, .u32, .u32, .u32, .u32, .u32, .u32, .bool, .u32]

theorem gcdLoop_idsArePlaces : gcdLoop.IdsArePlaces := by
  intro place b h
  rcases place with _ | _ | _ | place <;> simp [gcdLoop] at h <;> simp [← h]

theorem gcdLoop_verify_errors : gcdLoop.verify.errors = [] := by
  have hentry : gcdLoop.Reachable ⟨0⟩ := .entry rfl
  have hloop : gcdLoop.Reachable ⟨1⟩ := hentry.next rfl (by decide)
  have hdone : gcdLoop.Reachable ⟨2⟩ := hloop.next rfl (by decide)
  have hreached : gcdLoop.unreachable = [] := by
    rw [unreachable_eq_nil_iff]
    intro b hb
    simp only [gcdLoop, List.mem_cons, List.not_mem_nil, or_false] at hb
    rcases hb with rfl | rfl | rfl
    · exact mem_walk_iff.mpr ⟨hentry, rfl⟩
    · exact mem_walk_iff.mpr ⟨hloop, rfl⟩
    · exact mem_walk_iff.mpr ⟨hdone, rfl⟩
  have hblocks : gcdLoop.checkBlocks [] gcdLoop.blocks = [] := by decide
  simp only [verify, hreached, hblocks]
  rfl

theorem gcdLoop_run_safe :
    gcdLoop.verify.errors = [] ∧ gcdLoop.IdsArePlaces ∧
      ((∃ o, gcdLoop.run 100 [.u32 12, .u32 18] = .ok o ∧ o.returns.map Scalar.ty = [.u32]) ∨
        (∃ culprit, gcdLoop.run 100 [.u32 12, .u32 18] = .error (.divisionByZero culprit)) ∨
        gcdLoop.run 100 [.u32 12, .u32 18] = .error (.stepLimitExceeded 100)) := by
  exact ⟨gcdLoop_verify_errors, gcdLoop_idsArePlaces, run_safe_of_verified gcdLoop
    gcdLoop_verify_errors gcdLoop_idsArePlaces [.u32 12, .u32 18] rfl 100⟩

end Function

end FieldSSA
