import Mathlib.Algebra.Order.BigOperators.Group.List
import FieldSSA.Proofs.DepthFirst
import FieldSSA.Proofs.Indexing
import FieldSSA.Proofs.Trace

namespace FieldSSA

namespace Function

variable {f : Function} {s s' : MachineState} {n : Nat} {args : List Scalar}

/-- No block can get back to itself. -/
def Acyclic (f : Function) : Prop :=
  ∀ id, ¬ Relation.TransGen f.Links id id

/-- The run on some arguments, if its budget lasts, comes to a state. -/
def Passes (f : Function) (args : List Scalar) (s : MachineState) : Prop :=
  ∃ start n, f.enter (.ofSize f.valueTypes.length) [] .entry args = .ok start ∧ f.Steps n start s

theorem Acyclic.nodup_of_isChain (h : f.Acyclic) {path : List BlockId}
    (hpath : path.IsChain f.Links) : path.Nodup := by
  have htrans : path.IsChain (Relation.TransGen f.Links) := hpath.imp fun _ _ => .single
  have hpairwise : path.Pairwise (Relation.TransGen f.Links) := htrans.pairwise
  refine hpairwise.imp ?_
  rintro id _ hcycle rfl
  exact h id hcycle

/-- Edges that only go forward make no cycle. -/
theorem acyclic_of_forward
    (h : ∀ b ∈ f.blocks, ∀ id ∈ b.successors, b.id.index < id.index) : f.Acyclic := by
  have hlinks : ∀ id id', f.Links id id' → id.index < id'.index := by
    rintro id id' ⟨b, hb, hmem⟩
    obtain ⟨hblocks, rfl⟩ := mem_blocks_of_block? hb
    exact h b hblocks id' hmem
  have hpaths : ∀ id id', Relation.TransGen f.Links id id' → id.index < id'.index := by
    intro id id' hpath
    induction hpath with
    | single hlink => exact hlinks _ _ hlink
    | tail _ hlink ih => exact Nat.lt_trans ih (hlinks _ _ hlink)
  intro id hcycle
  exact Nat.lt_irrefl _ (hpaths id id hcycle)

theorem OnTrace.after (h : f.OnTrace s) (hsteps : f.Steps n s s') : f.OnTrace s' := by
  induction hsteps with
  | refl => exact h
  | step hstep _ ih => exact ih (h.step hstep)

theorem Acyclic.nodup_visited (hacyclic : f.Acyclic) (h : f.Passes args s) : s.visited.Nodup := by
  obtain ⟨start, n, henter, hsteps⟩ := h
  have htrace := (onTrace_of_entered (entered_of_enter henter)).after hsteps
  exact hacyclic.nodup_of_isChain htrace.linked

theorem IdsArePlaces.sum_blockSteps (hids : f.IdsArePlaces) :
    ((f.blocks.map Block.id).map f.blockSteps).sum = f.instructionCount + f.blocks.length := by
  have hsteps : ∀ b ∈ f.blocks, (f.blockSteps ∘ Block.id) b = b.instructions.length + 1 := by
    intro b hb
    simp [blockSteps, hids.block?_self hb]
  rw [List.map_map, List.map_congr_left hsteps, List.sum_map_add, instructionCount,
    List.length_flatMap]
  simp

/-- A run has always fewer steps behind it than all blocks have together. -/
theorem OnTrace.steps_lt (h : f.OnTrace s) (hw : f.WellFormed) (hids : f.IdsArePlaces)
    (hacyclic : f.Acyclic) : s.frame.steps < f.instructionCount + f.blocks.length := by
  have hsub : s.visited ⊆ f.blocks.map Block.id := fun id hid =>
    (hw.walk_perm hids).subset (h.walked hid)
  obtain ⟨path, hperm, hpath⟩ := (hacyclic.nodup_of_isChain h.linked).subperm hsub
  have hsum : (s.visited.map f.blockSteps).sum ≤ f.instructionCount + f.blocks.length := by
    rw [← (hperm.map f.blockSteps).sum_eq, ← hids.sum_blockSteps]
    exact (hpath.map f.blockSteps).sum_le_sum fun _ _ => Nat.zero_le _
  have hsteps := h.steps
  omega

/-- A budget that covers all blocks is enough for the rest of a run. -/
theorem OnTrace.runFrom_ends {scope : List ValueId} (htrace : f.OnTrace s) (hw : f.WellFormed)
    (hids : f.IdsArePlaces) (hacyclic : f.Acyclic) (hs : f.StateTyped s scope) (limit : Nat)
    {budget : Nat} (hbudget : f.instructionCount + f.blocks.length ≤ s.frame.steps + budget) :
    (∃ o, f.runFrom limit budget s = .ok o) ∨
      ∃ culprit, f.runFrom limit budget s = .error (.divisionByZero culprit) := by
  induction budget generalizing s scope with
  | zero =>
      have hless := htrace.steps_lt hw hids hacyclic
      omega
  | succ budget ih =>
      rcases step_typed hw hs with ⟨next, scope', hstep, hnext⟩ | ⟨data, hstep, -⟩ |
        ⟨culprit, hstep⟩
      · have hcount := steps_of_step hstep
        simp only [Function.runFrom, hstep]
        exact ih (htrace.step hstep) hnext (by omega)
      · exact .inl ⟨_, by simp only [Function.runFrom, hstep]; rfl⟩
      · exact .inr ⟨culprit, by simp only [Function.runFrom, hstep]⟩

/-- A verified function without loops, run on arguments of its parameter types within a budget of
its instructions and blocks, returns or divides by zero, and enters no block a second time. -/
theorem run_ends_of_acyclic (f : Function) (hverify : f.verify.errors = [])
    (hids : f.IdsArePlaces) (hacyclic : f.Acyclic) (args : List Scalar)
    (hargs : args.map Scalar.ty = f.signature.params) (limit : Nat)
    (hlimit : f.instructionCount + f.blocks.length ≤ limit) :
    (∀ s, f.Passes args s → s.visited.Nodup) ∧
      ((∃ o, f.run limit args = .ok o ∧ o.visited.Nodup) ∨
        ∃ culprit, f.run limit args = .error (.divisionByZero culprit)) := by
  have hw := f.verify_errors_eq_nil_iff.mp hverify
  obtain ⟨start, scope, henter, hstart⟩ := exists_enter_entry hw hids hargs
  have hentered := entered_of_enter henter
  have htrace := onTrace_of_entered hentered
  refine ⟨fun s h => hacyclic.nodup_visited h, ?_⟩
  rw [run_eq_runFrom hargs henter]
  have hbudget : f.instructionCount + f.blocks.length ≤ start.frame.steps + limit := by omega
  rcases htrace.runFrom_ends hw hids hacyclic hstart limit hbudget with
    ⟨o, ho⟩ | hzero
  · exact .inl ⟨o, ho, hacyclic.nodup_of_isChain (htrace.runFrom ho).linked⟩
  · exact .inr hzero

/-- A quotient, or the dividend where the divisor is zero. -/
def guardedQuotient : Function where
  signature := ⟨"quotient", [.u32, .u32], [.u32]⟩
  blocks :=
    [⟨⟨0⟩, [⟨0⟩, ⟨1⟩], [.const ⟨2⟩ (.u32 0), .cmp ⟨3⟩ .eq ⟨1⟩ ⟨2⟩],
        .condBr ⟨3⟩ ⟨⟨1⟩, [⟨0⟩]⟩ ⟨⟨2⟩, [⟨0⟩, ⟨1⟩]⟩⟩,
      ⟨⟨1⟩, [⟨4⟩], [], .br ⟨⟨3⟩, [⟨4⟩]⟩⟩,
      ⟨⟨2⟩, [⟨5⟩, ⟨6⟩], [.call .u32Divmod [⟨5⟩, ⟨6⟩] [⟨7⟩, ⟨8⟩]], .br ⟨⟨3⟩, [⟨7⟩]⟩⟩,
      ⟨⟨3⟩, [⟨9⟩], [], .ret [⟨9⟩]⟩]
  valueTypes := [.u32, .u32, .u32, .bool, .u32, .u32, .u32, .u32, .u32, .u32]

theorem guardedQuotient_verify_errors : guardedQuotient.verify.errors = [] := by
  cbv

theorem guardedQuotient_idsArePlaces : guardedQuotient.IdsArePlaces := by
  intro place b h
  rcases place with _ | _ | _ | _ | place <;> simp [guardedQuotient] at h <;> simp [← h]

theorem guardedQuotient_acyclic : guardedQuotient.Acyclic :=
  acyclic_of_forward (by decide)

theorem guardedQuotient_run_ends :
    guardedQuotient.verify.errors = [] ∧ guardedQuotient.IdsArePlaces ∧ guardedQuotient.Acyclic ∧
      (∀ s, guardedQuotient.Passes [.u32 17, .u32 5] s → s.visited.Nodup) ∧
      ∃ o, guardedQuotient.run 7 [.u32 17, .u32 5] = .ok o ∧ o.visited.Nodup := by
  have hrun : guardedQuotient.run 7 [.u32 17, .u32 5] =
      .ok ⟨[.u32 3], 6, [⟨0⟩, ⟨2⟩, ⟨3⟩]⟩ := by decide
  obtain ⟨hpasses, hends⟩ := run_ends_of_acyclic guardedQuotient guardedQuotient_verify_errors
    guardedQuotient_idsArePlaces guardedQuotient_acyclic [.u32 17, .u32 5] rfl 7 (by decide)
  refine ⟨guardedQuotient_verify_errors, guardedQuotient_idsArePlaces, guardedQuotient_acyclic,
    hpasses, ?_⟩
  rcases hends with hreturns | ⟨culprit, hzero⟩
  · exact hreturns
  · rw [hrun] at hzero
    cases hzero

end Function

end FieldSSA
