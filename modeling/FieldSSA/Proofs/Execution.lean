import FieldSSA.Machine.Run
import FieldSSA.Proofs.Outcome
import FieldSSA.Proofs.WellFormed

namespace FieldSSA

namespace Frame

theorem read_eq_ok_iff {fr : Frame} {v : ValueId} {data : Scalar} :
    fr.read v = .ok data ↔ fr.registers[v.index]? = some (some data) := by
  unfold read
  rcases fr.registers[v.index]? with _ | _ | d <;> simp

theorem write_eq_ok_iff {fr fr' : Frame} {v : ValueId} {data : Scalar} :
    fr.write v data = .ok fr' ↔ v.index < fr.registers.length ∧
      fr' = { fr with registers := fr.registers.set v.index (some data) } := by
  unfold write
  split
  · rename_i hlt
    simp [hlt, eq_comm]
  · rename_i hlt
    simp [hlt]

theorem length_of_write {fr fr' : Frame} {v : ValueId} {data : Scalar}
    (h : fr.write v data = .ok fr') : fr'.registers.length = fr.registers.length := by
  obtain ⟨-, rfl⟩ := write_eq_ok_iff.mp h
  simp

theorem read_of_write {fr fr' : Frame} {v : ValueId} {data : Scalar}
    (h : fr.write v data = .ok fr') : fr'.read v = .ok data := by
  obtain ⟨hlt, rfl⟩ := write_eq_ok_iff.mp h
  simp [read_eq_ok_iff, hlt]

theorem read_of_write_of_ne {fr fr' : Frame} {v w : ValueId} {data : Scalar}
    (h : fr.write v data = .ok fr') (hne : w ≠ v) : fr'.read w = fr.read w := by
  obtain ⟨-, rfl⟩ := write_eq_ok_iff.mp h
  have hindex : v.index ≠ w.index := fun hi => hne (congrArg ValueId.mk hi.symm)
  simp [read, List.getElem?_set_ne hindex]

theorem steps_of_write {fr fr' : Frame} {v : ValueId} {data : Scalar}
    (h : fr.write v data = .ok fr') : fr'.steps = fr.steps := by
  obtain ⟨-, rfl⟩ := write_eq_ok_iff.mp h
  rfl

theorem readAll_eq_ok_iff {fr : Frame} {vs : List ValueId} {data : List Scalar} :
    fr.readAll vs = .ok data ↔ List.Forall₂ (fun v d => fr.read v = .ok d) vs data :=
  mapM_eq_ok_iff

/-- One more step is counted. -/
def ticked (fr : Frame) : Frame :=
  { fr with steps := fr.steps + 1 }

end Frame

namespace Function

variable {f : Function} {fr fr' : Frame}

theorem checkData_eq_ok_iff {v : ValueId} {data : Scalar} :
    f.checkData v data = .ok () ↔ f.HasType v data.ty := by
  unfold checkData HasType
  cases f.valueType? v with
  | none => simp
  | some ty => by_cases h : ty = data.ty <;> simp [h]

theorem bindAll_cons_eq_ok_iff {v : ValueId} {data : Scalar} {rest : List (ValueId × Scalar)} :
    f.bindAll fr ((v, data) :: rest) = .ok fr' ↔
      f.HasType v data.ty ∧ ∃ mid, fr.write v data = .ok mid ∧ f.bindAll mid rest = .ok fr' := by
  rw [← checkData_eq_ok_iff, bindAll, bind_eq_ok_iff]
  simp only [bind_eq_ok_iff]
  exact ⟨fun ⟨_, hcheck, h⟩ => ⟨hcheck, h⟩, fun ⟨hcheck, h⟩ => ⟨(), hcheck, h⟩⟩

theorem length_of_bindAll {pairs : List (ValueId × Scalar)} (h : f.bindAll fr pairs = .ok fr') :
    fr'.registers.length = fr.registers.length := by
  induction pairs generalizing fr with
  | nil => simp_all [bindAll]
  | cons p rest ih =>
      obtain ⟨-, mid, hw, hb⟩ := bindAll_cons_eq_ok_iff.mp h
      rw [ih hb, Frame.length_of_write hw]

theorem read_of_bindAll_of_notMem {pairs : List (ValueId × Scalar)} {w : ValueId}
    (h : f.bindAll fr pairs = .ok fr') (hw : w ∉ pairs.map Prod.fst) :
    fr'.read w = fr.read w := by
  induction pairs generalizing fr with
  | nil => simp_all [bindAll]
  | cons p rest ih =>
      obtain ⟨-, mid, hwrite, hb⟩ := bindAll_cons_eq_ok_iff.mp h
      simp only [List.map_cons, List.mem_cons, not_or] at hw
      rw [ih hb hw.2, Frame.read_of_write_of_ne hwrite hw.1]

theorem read_of_bindAll {vs : List ValueId} {data : List Scalar}
    (h : f.bindAll fr (vs.zip data) = .ok fr') (hlen : vs.length = data.length)
    (hnodup : vs.Nodup) : List.Forall₂ (fun v d => fr'.read v = .ok d) vs data := by
  induction vs generalizing fr data with
  | nil => simp [List.eq_nil_of_length_eq_zero hlen.symm]
  | cons v rest ih =>
      cases data with
      | nil => simp at hlen
      | cons d data =>
          obtain ⟨-, mid, hwrite, hb⟩ := bindAll_cons_eq_ok_iff.mp h
          obtain ⟨hv, hrest⟩ := List.nodup_cons.mp hnodup
          have hlen' : rest.length = data.length := by simpa using hlen
          have hother : v ∉ (rest.zip data).map Prod.fst := by
            rwa [List.map_fst_zip (Nat.le_of_eq hlen')]
          refine List.forall₂_cons.mpr ⟨?_, ih hb hlen' hrest⟩
          rw [read_of_bindAll_of_notMem hb hother, Frame.read_of_write hwrite]

theorem exists_write {v : ValueId} {ty : Ty}
    (hsize : fr.registers.length = f.valueTypes.length) (hv : f.HasType v ty) (data : Scalar) :
    ∃ fr', fr.write v data = .ok fr' := by
  refine ⟨_, Frame.write_eq_ok_iff.mpr ⟨?_, rfl⟩⟩
  rw [hsize]
  exact (List.getElem?_eq_some_iff.mp hv).1

theorem exists_bindAll {vs : List ValueId} {data : List Scalar}
    (hsize : fr.registers.length = f.valueTypes.length)
    (htypes : f.HasTypes vs (data.map Scalar.ty)) :
    ∃ fr', f.bindAll fr (vs.zip data) = .ok fr' := by
  induction vs generalizing fr data with
  | nil => exact ⟨fr, rfl⟩
  | cons v rest ih =>
      cases data with
      | nil => exact ⟨fr, rfl⟩
      | cons d data =>
          obtain ⟨hv, hrest⟩ := List.forall₂_cons.mp htypes
          obtain ⟨mid, hwrite⟩ := exists_write hsize hv d
          obtain ⟨fr', hb⟩ := ih ((Frame.length_of_write hwrite).trans hsize) hrest
          exact ⟨fr', bindAll_cons_eq_ok_iff.mpr ⟨hv, mid, hwrite, hb⟩⟩

theorem execute_cmp {result lhs rhs : ValueId} {pred : Predicate} {a b : Scalar} {outcome : Bool}
    (ha : fr.read lhs = .ok a) (hb : fr.read rhs = .ok b) (ho : pred.holds? a b = some outcome) :
    f.execute fr (.cmp result pred lhs rhs) = fr.write result (.bool outcome) := by
  simp [execute, ha, hb, ho, bind, Except.bind]

theorem execute_call {callee : Intrinsic} {args results : List ValueId}
    {data outputs : List Scalar} (hread : fr.readAll args = .ok data)
    (hcompute : callee.compute data = .ok outputs) (hlen : outputs.length = results.length) :
    f.execute fr (.call callee args results) = f.bindAll fr (results.zip outputs) := by
  simp [execute, hread, hcompute, hlen, bind, Except.bind]

theorem execute_call_error {callee : Intrinsic} {args results : List ValueId}
    {data : List Scalar} {e : RunError} (hread : fr.readAll args = .ok data)
    (hcompute : callee.compute data = .error e) :
    f.execute fr (.call callee args results) = .error e := by
  simp [execute, hread, hcompute, bind, Except.bind]

theorem enter_of_bindAll {b : Block} {dest : BlockId} {values : List Scalar}
    (visited : List BlockId) (hblock : f.block? dest = some b)
    (hlen : b.params.length = values.length)
    (hbind : f.bindAll fr (b.params.zip values) = .ok fr') :
    f.enter fr visited dest values =
      .ok ⟨{ fr' with block := dest }, b.instructions, b.terminator, visited ++ [dest]⟩ := by
  simp [enter, hblock, hlen, hbind, bind, Except.bind, pure, Except.pure]

section Step

variable {s next : MachineState}

theorem step_instruction {i : Instruction} {rest : List Instruction} (h : s.pending = i :: rest)
    (hexec : f.execute s.frame.ticked i = .ok fr') :
    f.step s = .ok (.running { s with frame := fr', pending := rest }) := by
  rw [Frame.ticked] at hexec
  simp [step, h, hexec, bind, Except.bind, pure, Except.pure]

theorem step_instruction_error {i : Instruction} {rest : List Instruction} {e : RunError}
    (h : s.pending = i :: rest) (hexec : f.execute s.frame.ticked i = .error e) :
    f.step s = .error e := by
  rw [Frame.ticked] at hexec
  simp [step, h, hexec, bind, Except.bind]

theorem step_br {edge : Edge} {data : List Scalar} (h : s.pending = [])
    (ht : s.terminator = .br edge) (hread : s.frame.ticked.readAll edge.args = .ok data)
    (henter : f.enter s.frame.ticked s.visited edge.dest data = .ok next) :
    f.step s = .ok (.running next) := by
  rw [Frame.ticked] at hread henter
  simp [step, h, ht, hread, henter, bind, Except.bind, pure, Except.pure]

theorem step_condBr {cond : ValueId} {onTrue onFalse : Edge} {taken : Bool} {data : List Scalar}
    (h : s.pending = []) (ht : s.terminator = .condBr cond onTrue onFalse)
    (hcond : s.frame.ticked.read cond = .ok (.bool taken))
    (hread : s.frame.ticked.readAll (if taken then onTrue else onFalse).args = .ok data)
    (henter : f.enter s.frame.ticked s.visited (if taken then onTrue else onFalse).dest data =
      .ok next) :
    f.step s = .ok (.running next) := by
  rw [Frame.ticked] at hcond hread henter
  simp [step, h, ht, readCondition, hcond, Scalar.asBool?, hread, henter, bind, Except.bind, pure,
    Except.pure]

theorem step_ret {values : List ValueId} {data : List Scalar} (h : s.pending = [])
    (ht : s.terminator = .ret values) (hread : s.frame.ticked.readAll values = .ok data) :
    f.step s = .ok (.finished data) := by
  rw [Frame.ticked] at hread
  simp [step, h, ht, hread, bind, Except.bind, pure, Except.pure]

end Step

section Inversion

variable {s next : MachineState}

theorem steps_of_bindAll {pairs : List (ValueId × Scalar)} (h : f.bindAll fr pairs = .ok fr') :
    fr'.steps = fr.steps := by
  induction pairs generalizing fr with
  | nil => simp_all [bindAll]
  | cons p rest ih =>
      obtain ⟨-, mid, hwrite, hbind⟩ := bindAll_cons_eq_ok_iff.mp h
      rw [ih hbind, Frame.steps_of_write hwrite]

theorem steps_of_execute {i : Instruction} (h : f.execute fr i = .ok fr') :
    fr'.steps = fr.steps := by
  cases i with
  | const result imm => exact Frame.steps_of_write h
  | cmp result pred lhs rhs =>
      obtain ⟨a, -, h⟩ := bind_eq_ok_iff.mp h
      obtain ⟨b, -, h⟩ := bind_eq_ok_iff.mp h
      split at h
      · exact Frame.steps_of_write h
      · cases h
  | call callee args results =>
      obtain ⟨data, -, h⟩ := bind_eq_ok_iff.mp h
      obtain ⟨outputs, -, h⟩ := bind_eq_ok_iff.mp h
      split at h
      · cases h
      · exact steps_of_bindAll h

/-- A state at the start of the block of an identifier, which is the last one visited. -/
structure Entered (f : Function) (visited : List BlockId) (steps : Nat) (dest : BlockId)
    (next : MachineState) : Prop where
  block : ∃ b, f.block? dest = some b ∧ next.pending = b.instructions ∧
    next.terminator = b.terminator
  visited : next.visited = visited ++ [dest]
  steps : next.frame.steps = steps

theorem entered_of_enter {visited : List BlockId} {dest : BlockId} {values : List Scalar}
    (h : f.enter fr visited dest values = .ok next) :
    f.Entered visited fr.steps dest next := by
  unfold enter at h
  split at h
  · cases h
  · rename_i b hb
    split at h
    · cases h
    · obtain ⟨fr', hbind, h⟩ := bind_eq_ok_iff.mp h
      obtain rfl := pure_eq_ok_iff.mp h
      have hsteps : fr'.steps = fr.steps := steps_of_bindAll hbind
      exact ⟨⟨b, hb, rfl, rfl⟩, rfl, hsteps⟩

theorem entered_of_branch {edge : Edge} {p : Progress}
    (h : (do
      let values ← s.frame.ticked.readAll edge.args
      let next ← f.enter s.frame.ticked s.visited edge.dest values
      return Progress.running next) = .ok p) :
    ∃ next, p = .running next ∧ f.Entered s.visited (s.frame.steps + 1) edge.dest next := by
  obtain ⟨values, -, h⟩ := bind_eq_ok_iff.mp h
  obtain ⟨next, henter, h⟩ := bind_eq_ok_iff.mp h
  exact ⟨next, (pure_eq_ok_iff.mp h).symm, entered_of_enter henter⟩

/-- What a step that succeeds can do. -/
theorem step_cases {p : Progress} (h : f.step s = .ok p) :
    (∃ i rest fr', s.pending = i :: rest ∧ fr'.steps = s.frame.steps + 1 ∧
      p = .running { s with frame := fr', pending := rest }) ∨
    (∃ edge ∈ s.terminator.successors, ∃ next, s.pending = [] ∧ p = .running next ∧
      f.Entered s.visited (s.frame.steps + 1) edge.dest next) ∨
    (∃ values data, s.pending = [] ∧ s.terminator = .ret values ∧ p = .finished data) := by
  unfold step at h
  cases hpending : s.pending with
  | cons i rest =>
      rw [hpending] at h
      obtain ⟨fr', hexec, h⟩ := bind_eq_ok_iff.mp h
      have hsteps : fr'.steps = s.frame.steps + 1 := steps_of_execute hexec
      exact .inl ⟨i, rest, fr', rfl, hsteps, (pure_eq_ok_iff.mp h).symm⟩
  | nil =>
      rw [hpending] at h
      cases hterm : s.terminator with
      | br edge =>
          rw [hterm] at h
          obtain ⟨next, hp, hentered⟩ := entered_of_branch h
          exact .inr (.inl ⟨edge, by simp [Terminator.successors], next, rfl, hp, hentered⟩)
      | condBr cond onTrue onFalse =>
          rw [hterm] at h
          obtain ⟨taken, -, h⟩ := bind_eq_ok_iff.mp h
          obtain ⟨next, hp, hentered⟩ := entered_of_branch h
          refine .inr (.inl ⟨_, ?_, next, rfl, hp, hentered⟩)
          cases taken <;> simp [Terminator.successors]
      | ret values =>
          rw [hterm] at h
          obtain ⟨data, -, h⟩ := bind_eq_ok_iff.mp h
          exact .inr (.inr ⟨values, data, rfl, rfl, (pure_eq_ok_iff.mp h).symm⟩)

/-- A step that goes on is counted. -/
theorem steps_of_step (h : f.step s = .ok (.running next)) :
    next.frame.steps = s.frame.steps + 1 := by
  rcases step_cases h with ⟨i, rest, fr', -, hsteps, hp⟩ | ⟨edge, -, next', -, hp, hentered⟩ |
    ⟨values, data, -, -, hp⟩
  · cases hp
    exact hsteps
  · cases hp
    exact hentered.steps
  · cases hp

end Inversion

end Function

end FieldSSA
