import FieldSSA.Proofs.TypeSafety

/-!
Values are local to blocks. The registers of a run keep what earlier blocks wrote, but verified
code reads only what was written since its block was entered: a machine that clears all registers
on entry to a block runs such functions in the same way.
-/

namespace FieldSSA

/-- The frame with all registers empty. -/
def Frame.cleared (fr : Frame) : Frame :=
  { fr with registers := List.replicate fr.registers.length none }

namespace Function

/-- Enter a block with empty registers, in which only its parameters are then set. -/
def enterCleared (f : Function) (fr : Frame) (visited : List BlockId) (dest : BlockId)
    (values : List Scalar) : Except RunError MachineState :=
  f.enter fr.cleared visited dest values

/-- A step of the machine that clears the registers on entry to a block. -/
def stepCleared (f : Function) (s : MachineState) : Except RunError Progress := do
  let fr := s.frame.ticked
  match s.pending with
  | i :: rest => return .running { s with frame := ← f.execute fr i, pending := rest }
  | [] =>
    match s.terminator with
    | .br edge =>
      return .running (← f.enterCleared fr s.visited edge.dest (← fr.readAll edge.args))
    | .condBr cond onTrue onFalse =>
      let edge := if ← readCondition fr cond then onTrue else onFalse
      return .running (← f.enterCleared fr s.visited edge.dest (← fr.readAll edge.args))
    | .ret values => return .finished (← fr.readAll values)

def runFromCleared (f : Function) (limit : Nat) :
    (budget : Nat) → MachineState → Except RunError Outcome
  | 0, _ => .error (.stepLimitExceeded limit)
  | budget + 1, s =>
    match f.stepCleared s with
    | .error e => .error e
    | .ok (.running next) => f.runFromCleared limit budget next
    | .ok (.finished returns) => .ok ⟨returns, s.frame.steps + 1, s.visited⟩

/-- Run a function on arguments, with registers that are cleared on entry to each block. -/
def runCleared (f : Function) (limit : Nat) (args : List Scalar) : Except RunError Outcome :=
  if args.length ≠ f.signature.params.length then
    .error (.argumentCount f.signature.params.length args.length)
  else do
    checkArguments 0 (args.zip f.signature.params)
    f.runFromCleared limit limit
      (← f.enterCleared (.ofSize f.valueTypes.length) [] .entry args)

end Function

/-- Two computations fail in the same way, or give related results. -/
inductive Matched {ε α β : Type} (R : α → β → Prop) : Except ε α → Except ε β → Prop
  | error {e : ε} : Matched R (.error e) (.error e)
  | ok {a : α} {b : β} : R a b → Matched R (.ok a) (.ok b)

namespace Matched

variable {ε α β γ δ : Type} {R : α → β → Prop} {S : γ → δ → Prop}

theorem of_eq {x y : Except ε α} (h : x = y) : Matched Eq x y := by
  subst h
  cases x with
  | error e => exact .error
  | ok a => exact .ok rfl

theorem bind {x : Except ε α} {y : Except ε β} {g : α → Except ε γ} {k : β → Except ε δ}
    (h : Matched R x y) (hg : ∀ a b, R a b → Matched S (g a) (k b)) :
    Matched S (x >>= g) (y >>= k) := by
  cases h with
  | error => exact .error
  | ok hab => exact hg _ _ hab

end Matched

namespace Frame

/-- Two frames that differ only in registers outside a scope. -/
structure Agrees (scope : List ValueId) (fr fr' : Frame) : Prop where
  size : fr.registers.length = fr'.registers.length
  block : fr.block = fr'.block
  steps : fr.steps = fr'.steps
  read : ∀ v ∈ scope, fr.read v = fr'.read v

variable {scope vs : List ValueId} {fr fr' : Frame}

theorem Agrees.readAll (h : Agrees scope fr fr') (hsub : vs ⊆ scope) :
    fr.readAll vs = fr'.readAll vs := by
  induction vs with
  | nil => rfl
  | cons v rest ih =>
      obtain ⟨hv, hrest⟩ := List.cons_subset.mp hsub
      have hrest : rest.mapM fr.read = rest.mapM fr'.read := ih hrest
      rw [Frame.readAll, Frame.readAll, List.mapM_cons, List.mapM_cons, h.read v hv, hrest]

theorem Agrees.write (h : Agrees scope fr fr') (v : ValueId) (data : Scalar) :
    Matched (Agrees (scope ++ [v])) (fr.write v data) (fr'.write v data) := by
  by_cases hlt : v.index < fr.registers.length
  · obtain ⟨next, hnext⟩ : ∃ next, fr.write v data = .ok next :=
      ⟨_, write_eq_ok_iff.mpr ⟨hlt, rfl⟩⟩
    obtain ⟨next', hnext'⟩ : ∃ next', fr'.write v data = .ok next' :=
      ⟨_, write_eq_ok_iff.mpr ⟨h.size ▸ hlt, rfl⟩⟩
    have hsize : next.registers.length = next'.registers.length := by
      rw [length_of_write hnext, length_of_write hnext', h.size]
    have hblock : next.block = next'.block := by
      rw [(write_eq_ok_iff.mp hnext).2, (write_eq_ok_iff.mp hnext').2, h.block]
    have hsteps : next.steps = next'.steps := by
      rw [(write_eq_ok_iff.mp hnext).2, (write_eq_ok_iff.mp hnext').2, h.steps]
    rw [hnext, hnext']
    refine .ok ⟨hsize, hblock, hsteps, ?_⟩
    intro w hw
    by_cases heq : w = v
    · rw [heq, read_of_write hnext, read_of_write hnext']
    · rw [read_of_write_of_ne hnext heq, read_of_write_of_ne hnext' heq]
      exact h.read w (by simpa [heq] using hw)
  · rw [Frame.write, Frame.write, if_neg hlt, if_neg (h.size ▸ hlt)]
    exact .error

theorem Agrees.cleared (h : Agrees scope fr fr') : Agrees [] fr fr'.cleared :=
  ⟨by simp [Frame.cleared, h.size], h.block, h.steps, by simp⟩

theorem Agrees.ticked (h : Agrees scope fr fr') : Agrees scope fr.ticked fr'.ticked :=
  ⟨h.size, h.block, congrArg (· + 1) h.steps, h.read⟩

end Frame

namespace Function

variable {f : Function} {scope : List ValueId} {fr fr' : Frame} {s s' : MachineState}

theorem bindAll_agrees (h : fr.Agrees scope fr') (pairs : List (ValueId × Scalar)) :
    Matched (Frame.Agrees (scope ++ pairs.map Prod.fst)) (f.bindAll fr pairs)
      (f.bindAll fr' pairs) := by
  induction pairs generalizing fr fr' scope with
  | nil => exact .ok (by simpa using h)
  | cons p rest ih =>
      apply Matched.bind (.of_eq rfl)
      intro _ _ _
      apply Matched.bind (h.write p.1 p.2)
      intro mid mid' hmid
      simpa using ih hmid

theorem execute_agrees {i : Instruction} (h : fr.Agrees scope fr') (hsub : i.operands ⊆ scope) :
    Matched (Frame.Agrees (scope ++ i.results)) (f.execute fr i) (f.execute fr' i) := by
  cases i with
  | const result imm => exact h.write result imm
  | cmp result pred lhs rhs =>
      apply Matched.bind (.of_eq (h.read lhs (hsub (by simp [Instruction.operands]))))
      rintro a _ rfl
      apply Matched.bind (.of_eq (h.read rhs (hsub (by simp [Instruction.operands]))))
      rintro b _ rfl
      cases pred.holds? a b with
      | none => exact .error
      | some outcome => exact h.write result (.bool outcome)
  | call callee args results =>
      apply Matched.bind (.of_eq (h.readAll hsub))
      rintro data _ rfl
      apply Matched.bind (.of_eq rfl)
      rintro outputs _ rfl
      by_cases hlen : outputs.length = results.length
      · have hfst : (results.zip outputs).map Prod.fst = results :=
          List.map_fst_zip (Nat.le_of_eq hlen.symm)
        have hbind := f.bindAll_agrees h (results.zip outputs)
        rw [hfst] at hbind
        simp only [ne_eq, hlen, not_true_eq_false, if_false]
        exact hbind
      · simp only [ne_eq, hlen, not_false_eq_true, if_true]
        exact .error

/-- Two runs are at the same place, and the code ahead reads only registers that agree. -/
structure Mirrors (f : Function) (s s' : MachineState) (scope : List ValueId) : Prop where
  frame : s.frame.Agrees scope s'.frame
  same : s' = { s with frame := s'.frame }
  pending : f.InstructionsTyped scope s.pending
  operands : s.terminator.operands ⊆ scope ++ s.pending.flatMap Instruction.results

/-- Steps of two runs go on in states that mirror each other, or return the same data. -/
inductive Progresses (f : Function) : Progress → Progress → Prop
  | running {s s' : MachineState} {scope : List ValueId} :
      f.Mirrors s s' scope → f.Progresses (.running s) (.running s')
  | finished {returns : List Scalar} : f.Progresses (.finished returns) (.finished returns)

/-- Blocks read only what they define, so registers need not agree on entry. -/
theorem enter_mirrors (hw : f.WellFormed) (h : fr.Agrees scope fr') (visited : List BlockId)
    (dest : BlockId) (values : List Scalar) :
    Matched (fun s s' => ∃ scope', f.Mirrors s s' scope') (f.enter fr visited dest values)
      (f.enterCleared fr' visited dest values) := by
  unfold enterCleared enter
  cases hblock : f.block? dest with
  | none => exact .error
  | some b =>
      have hb := hw.blocks b (mem_blocks_of_block? hblock).1
      by_cases hlen : b.params.length = values.length
      · have hfst : (b.params.zip values).map Prod.fst = b.params :=
          List.map_fst_zip (Nat.le_of_eq hlen)
        simp only [ne_eq, hlen, not_true_eq_false, if_false]
        apply Matched.bind (f.bindAll_agrees h.cleared (b.params.zip values))
        intro next next' hnext
        rw [hfst, List.nil_append] at hnext
        exact .ok ⟨b.params, ⟨hnext.size, rfl, hnext.steps, hnext.read⟩, rfl,
          hb.instructions, hb.operands⟩
      · simpa only [ne_eq, hlen, not_false_eq_true, if_true] using Matched.error

theorem branch_mirrors (hw : f.WellFormed) (h : fr.Agrees scope fr') {edge : Edge}
    (hsub : edge.args ⊆ scope) (visited : List BlockId) :
    Matched f.Progresses
      (do return .running (← f.enter fr visited edge.dest (← fr.readAll edge.args)))
      (do return .running (← f.enterCleared fr' visited edge.dest (← fr'.readAll edge.args))) := by
  apply Matched.bind (.of_eq (h.readAll hsub))
  rintro data _ rfl
  apply Matched.bind (enter_mirrors hw h visited edge.dest data)
  rintro next next' ⟨scope', hnext⟩
  exact .ok (.running hnext)

theorem step_mirrors (hw : f.WellFormed) (h : f.Mirrors s s' scope) :
    Matched f.Progresses (f.step s) (f.stepCleared s') := by
  have hframe := h.frame.ticked
  obtain ⟨fr', rfl⟩ : ∃ fr', s' = { s with frame := fr' } := ⟨_, h.same⟩
  unfold step stepCleared
  cases hp : s.pending with
  | cons i rest =>
      obtain ⟨hsub, -, hrest⟩ := hp ▸ h.pending
      apply Matched.bind (f.execute_agrees hframe hsub)
      intro next next' hnext
      refine .ok (.running ⟨hnext, rfl, hrest, ?_⟩)
      simpa [hp] using h.operands
  | nil =>
      have hoperands : s.terminator.operands ⊆ scope := by simpa [hp] using h.operands
      cases ht : s.terminator with
      | br edge =>
          rw [ht] at hoperands
          exact branch_mirrors hw hframe hoperands s.visited
      | condBr cond onTrue onFalse =>
          simp only [ht, Terminator.operands, List.cons_append, List.cons_subset,
            List.append_subset] at hoperands
          obtain ⟨hcond, htrue, hfalse⟩ := hoperands
          have hread : readCondition s.frame.ticked cond = readCondition fr'.ticked cond := by
            rw [readCondition, readCondition, hframe.read cond hcond]
          apply Matched.bind (.of_eq hread)
          rintro taken _ rfl
          cases taken with
          | true => exact branch_mirrors hw hframe htrue s.visited
          | false => exact branch_mirrors hw hframe hfalse s.visited
      | ret values =>
          rw [ht] at hoperands
          apply Matched.bind (.of_eq (hframe.readAll hoperands))
          rintro data _ rfl
          exact .ok .finished

theorem runFrom_eq_runFromCleared (hw : f.WellFormed) (h : f.Mirrors s s' scope)
    (limit budget : Nat) : f.runFrom limit budget s = f.runFromCleared limit budget s' := by
  induction budget generalizing s s' scope with
  | zero => rfl
  | succ budget ih =>
      rw [runFrom, runFromCleared]
      have hstep := step_mirrors hw h
      generalize f.step s = x, f.stepCleared s' = y at hstep
      cases hstep with
      | error => rfl
      | ok hprogress =>
          cases hprogress with
          | running hnext => exact ih hnext
          | finished => rw [h.frame.steps, h.same]

/-- A verified function runs as on a machine that forgets all values on entry to a block: both
runs return the same values after the same steps and blocks, or fail in the same way. -/
theorem run_eq_runCleared (f : Function) (hverify : f.verify.errors = []) (limit : Nat)
    (args : List Scalar) : f.run limit args = f.runCleared limit args := by
  have hw := f.verify_errors_eq_nil_iff.mp hverify
  unfold run runCleared
  split
  · rfl
  · congr 1
    funext _
    have hstart : (Frame.ofSize f.valueTypes.length).Agrees [] (.ofSize f.valueTypes.length) :=
      ⟨rfl, rfl, rfl, by simp⟩
    have henter := enter_mirrors hw hstart [] .entry args
    generalize f.enter _ _ _ _ = x, f.enterCleared _ _ _ _ = y at henter
    cases henter with
    | error => rfl
    | ok hs =>
        obtain ⟨scope, hs⟩ := hs
        exact runFrom_eq_runFromCleared hw hs limit limit

theorem gcdLoop_run_eq_runCleared :
    gcdLoop.verify.errors = [] ∧
      gcdLoop.run 100 [.u32 12, .u32 18] = gcdLoop.runCleared 100 [.u32 12, .u32 18] :=
  ⟨gcdLoop_verify_errors, run_eq_runCleared gcdLoop gcdLoop_verify_errors 100 [.u32 12, .u32 18]⟩

/-- A function that returns a value of a block it has left. -/
def staleRead : Function where
  signature := ⟨"stale", [], [.u32]⟩
  blocks := [⟨⟨0⟩, [], [.const ⟨0⟩ (.u32 7)], .br ⟨⟨1⟩, []⟩⟩, ⟨⟨1⟩, [], [], .ret [⟨0⟩]⟩]
  valueTypes := [.u32]

example :
    staleRead.run 10 [] = .ok ⟨[.u32 7], 3, [⟨0⟩, ⟨1⟩]⟩ ∧
      staleRead.runCleared 10 [] = .error (.undefinedValue ⟨0⟩) := by
  decide

end Function

end FieldSSA
