import Mathlib.Algebra.Ring.Nat
import Mathlib.Data.List.Chain
import FieldSSA.Proofs.Runs
import FieldSSA.Proofs.TypeSafety

namespace FieldSSA

namespace Function

variable {f : Function} {s next : MachineState}

/-- The block of an identifier can branch to another. -/
def Links (f : Function) (id id' : BlockId) : Prop :=
  ∃ b, f.block? id = some b ∧ id' ∈ b.successors

/-- The block of an identifier ends in a return. -/
def Returns (f : Function) (id : BlockId) : Prop :=
  ∃ b values, f.block? id = some b ∧ b.terminator = .ret values

/-- The steps that the block of an identifier takes: its instructions and its terminator. -/
def blockSteps (f : Function) (id : BlockId) : Nat :=
  ((f.block? id).map fun b => b.instructions.length + 1).getD 0

/-- Visited blocks and a number of steps are those of a path from the entry to a return. -/
structure IsTrace (f : Function) (visited : List BlockId) (steps : Nat) : Prop where
  starts : visited.head? = some .entry
  linked : visited.IsChain f.Links
  ends : ∃ before last, visited = before ++ [last] ∧ f.Returns last ∧
    ∀ id ∈ before, ¬ f.Returns id
  walked : visited ⊆ f.walk
  steps : steps = (visited.map f.blockSteps).sum

theorem Links.not_returns {id id' : BlockId} (h : f.Links id id') : ¬ f.Returns id := by
  rintro ⟨b, values, hb, hterm⟩
  obtain ⟨b', hb', hmem⟩ := h
  obtain rfl : b = b' := Option.some.inj (hb.symm.trans hb')
  simp [Block.successors, hterm, Terminator.successors] at hmem

theorem Links.mem_walk {id id' : BlockId} (h : f.Links id id') (hid : id ∈ f.walk)
    (hfound : (f.block? id').isSome) : id' ∈ f.walk := by
  obtain ⟨b, hb, hmem⟩ := h
  exact mem_walk_iff.mpr ⟨(mem_walk_iff.mp hid).1.next hb hmem, hfound⟩

theorem entry_mem_walk {b : Block} (h : f.block? .entry = some b) : .entry ∈ f.walk := by
  refine mem_walk_iff.mpr ⟨.entry ?_, by simp [h]⟩
  have hget : f.blocks[0]? = some b := (Option.filter_eq_some_iff.mp h).1
  have hid : b.id = .entry := (mem_blocks_of_block? h).2
  unfold entry?
  rw [List.head?_eq_getElem?, hget, Option.map_some, hid]

/-- The way of a run so far. The last block is the one that is running, and the steps that it has
still to take are counted in. -/
structure OnTrace (f : Function) (s : MachineState) : Prop where
  starts : s.visited.head? = some .entry
  linked : s.visited.IsChain f.Links
  current : ∃ before last b, s.visited = before ++ [last] ∧ f.block? last = some b ∧
    s.terminator = b.terminator ∧ ∀ id ∈ before, ¬ f.Returns id
  walked : s.visited ⊆ f.walk
  steps : s.frame.steps + (s.pending.length + 1) = (s.visited.map f.blockSteps).sum

theorem onTrace_of_entered (h : f.Entered [] 0 .entry s) : f.OnTrace s := by
  obtain ⟨⟨b, hb, hpending, hterm⟩, hvisited, hsteps⟩ := h
  rw [List.nil_append] at hvisited
  constructor
  · simp [hvisited]
  · simp [hvisited]
  · exact ⟨[], .entry, b, hvisited, hb, hterm, by simp⟩
  · simpa [hvisited] using entry_mem_walk hb
  · simp [hvisited, hsteps, hpending, blockSteps, hb]

theorem OnTrace.entered {edge : Edge} (h : f.OnTrace s) (hpending : s.pending = [])
    (hedge : edge ∈ s.terminator.successors)
    (hnext : f.Entered s.visited (s.frame.steps + 1) edge.dest next) : f.OnTrace next := by
  obtain ⟨before, last, b, hvisited, hb, hterm, hbefore⟩ := h.current
  obtain ⟨⟨b', hb', hpending', hterm'⟩, hvisited', hsteps'⟩ := hnext
  have hlinks : f.Links last edge.dest :=
    ⟨b, hb, List.mem_map_of_mem (hterm ▸ hedge)⟩
  constructor
  · rw [hvisited', List.head?_append, h.starts, Option.some_or]
  · rw [hvisited']
    refine h.linked.append (List.isChain_singleton _) ?_
    intro x hx y hy
    simp only [hvisited, List.getLast?_concat, List.head?_cons, Option.mem_def,
      Option.some.injEq] at hx hy
    rwa [← hx, ← hy]
  · refine ⟨s.visited, edge.dest, b', hvisited', hb', hterm', ?_⟩
    rw [hvisited, List.forall_mem_append]
    exact ⟨hbefore, by simpa using hlinks.not_returns⟩
  · rw [hvisited', List.append_subset]
    refine ⟨h.walked, ?_⟩
    have hlast : last ∈ f.walk := h.walked (by simp [hvisited])
    simpa using hlinks.mem_walk hlast (by simp [hb'])
  · have hbefore := h.steps
    simp only [hpending, List.length_nil] at hbefore
    simp only [hsteps', hpending', hvisited', List.map_append, List.sum_append, List.map_cons,
      List.map_nil, List.sum_cons, List.sum_nil, blockSteps, hb', Option.map_some,
      Option.getD_some] at hbefore ⊢
    omega

/-- One step keeps to the trace. -/
theorem OnTrace.step (h : f.OnTrace s) (hstep : f.step s = .ok (.running next)) :
    f.OnTrace next := by
  rcases step_cases hstep with ⟨i, rest, fr', hpending, hsteps, hp⟩ |
    ⟨edge, hedge, next', hpending, hp, hentered⟩ | ⟨values, data, -, -, hp⟩
  · cases hp
    have hbefore := h.steps
    rw [hpending, List.length_cons] at hbefore
    exact ⟨h.starts, h.linked, h.current, h.walked, by simp only; omega⟩
  · cases hp
    exact h.entered hpending hedge hentered
  · cases hp

theorem OnTrace.finish {data : List Scalar} (h : f.OnTrace s)
    (hstep : f.step s = .ok (.finished data)) : f.IsTrace s.visited (s.frame.steps + 1) := by
  rcases step_cases hstep with ⟨i, rest, fr', -, -, hp⟩ | ⟨edge, -, next', -, hp, -⟩ |
    ⟨values, data', hpending, hterm, -⟩
  · cases hp
  · cases hp
  · obtain ⟨before, last, b, hvisited, hb, hterm', hbefore⟩ := h.current
    have hsteps := h.steps
    rw [hpending, List.length_nil] at hsteps
    exact ⟨h.starts, h.linked, ⟨before, last, hvisited, ⟨b, values, hb, hterm' ▸ hterm⟩, hbefore⟩,
      h.walked, hsteps⟩

theorem OnTrace.runFrom {o : Outcome} {limit budget : Nat} (h : f.OnTrace s)
    (hrun : f.runFrom limit budget s = .ok o) : f.IsTrace o.visited o.steps := by
  induction budget generalizing s with
  | zero => cases hrun
  | succ budget ih =>
      rw [Function.runFrom] at hrun
      cases hstep : f.step s with
      | error e =>
          rw [hstep] at hrun
          cases hrun
      | ok p =>
          rw [hstep] at hrun
          cases p with
          | running next => exact ih (h.step hstep) hrun
          | finished data =>
              cases hrun
              exact h.finish hstep

/-- The outcome of a run is a trace: its blocks are a path from the entry, each joined to the next
by an edge, that stays within the walk and ends in the only return, and its steps are those of
the blocks on the path. -/
theorem run_isTrace (f : Function) (limit : Nat) (args : List Scalar) (o : Outcome)
    (h : f.run limit args = .ok o) : f.IsTrace o.visited o.steps := by
  rcases f.run_cases args with ⟨e, herror⟩ | ⟨s, hstart, hrun⟩
  · rw [herror] at h
    cases h
  · rw [hrun] at h
    exact (onTrace_of_entered hstart).runFrom h

/-- A run of Euclid's algorithm goes through the loop three times. -/
theorem gcdLoop_run_isTrace :
    gcdLoop.run 20 [.u32 12, .u32 18] = .ok ⟨[.u32 6], 14, [⟨0⟩, ⟨1⟩, ⟨1⟩, ⟨1⟩, ⟨2⟩]⟩ ∧
      gcdLoop.IsTrace [⟨0⟩, ⟨1⟩, ⟨1⟩, ⟨1⟩, ⟨2⟩] 14 := by
  have hrun : gcdLoop.run 20 [.u32 12, .u32 18] =
      .ok ⟨[.u32 6], 14, [⟨0⟩, ⟨1⟩, ⟨1⟩, ⟨1⟩, ⟨2⟩]⟩ := by decide
  exact ⟨hrun, run_isTrace gcdLoop 20 [.u32 12, .u32 18] _ hrun⟩

end Function

end FieldSSA
