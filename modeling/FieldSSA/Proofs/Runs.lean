import FieldSSA.Proofs.Execution

namespace FieldSSA

namespace Function

variable {f : Function} {s s' : MachineState} {n limit budget : Nat}

/-- The machine takes this many steps from one state to another. -/
inductive Steps (f : Function) : Nat → MachineState → MachineState → Prop
  | refl {s : MachineState} : f.Steps 0 s s
  | step {n : Nat} {s s' s'' : MachineState} :
      f.step s = .ok (.running s') → f.Steps n s' s'' → f.Steps (n + 1) s s''

theorem Steps.trans {k : Nat} {s'' : MachineState} (h : f.Steps n s s') (h' : f.Steps k s' s'') :
    f.Steps (n + k) s s'' := by
  induction h with
  | refl => rwa [Nat.zero_add]
  | step hstep _ ih =>
      rw [Nat.add_right_comm]
      exact .step hstep (ih h')

theorem Steps.runFrom_add (h : f.Steps n s s') (limit budget : Nat) :
    f.runFrom limit (n + budget) s = f.runFrom limit budget s' := by
  induction h with
  | refl => rw [Nat.zero_add]
  | step hstep _ ih =>
      rw [Nat.add_right_comm, runFrom, hstep]
      exact ih

theorem Steps.runFrom_of_lt (h : f.Steps n s s') (limit : Nat) (hbudget : budget < n) :
    f.runFrom limit budget s = .error (.stepLimitExceeded limit) := by
  induction h generalizing budget with
  | refl => omega
  | step hstep _ ih =>
      cases budget with
      | zero => rfl
      | succ budget =>
          rw [runFrom, hstep]
          exact ih (by omega)

/-- A run fails before its first step whatever the limit, or it starts at the entry. -/
theorem run_cases (f : Function) (args : List Scalar) :
    (∃ e, ∀ limit, f.run limit args = .error e) ∨
      ∃ s, f.Entered [] 0 .entry s ∧ ∀ limit, f.run limit args = f.runFrom limit limit s := by
  unfold run
  by_cases hcount : args.length ≠ f.signature.params.length
  · simp only [if_pos hcount]
    exact .inl ⟨_, fun _ => rfl⟩
  · simp only [if_neg hcount]
    cases checkArguments 0 (args.zip f.signature.params) with
    | error e => exact .inl ⟨e, fun _ => rfl⟩
    | ok _ =>
        cases henter : f.enter (.ofSize f.valueTypes.length) [] .entry args with
        | error e => exact .inl ⟨e, fun _ => rfl⟩
        | ok s => exact .inr ⟨s, entered_of_enter henter, fun _ => rfl⟩

/-- A run ends after `cost` steps, in a way that `P` describes. -/
structure Concludes (f : Function) (s : MachineState) (cost : Nat)
    (P : Except RunError Outcome → Prop) : Prop where
  short : ∀ limit budget, budget < cost →
    f.runFrom limit budget s = .error (.stepLimitExceeded limit)
  enough : ∀ limit budget, cost ≤ budget → P (f.runFrom limit budget s)

variable {P : Except RunError Outcome → Prop} {cost : Nat}

theorem Concludes.cases (h : f.Concludes s cost P) (limit budget : Nat) :
    f.runFrom limit budget s = .error (.stepLimitExceeded limit) ∨
      cost ≤ budget ∧ P (f.runFrom limit budget s) := by
  rcases Nat.lt_or_ge budget cost with hlt | hge
  · exact .inl (h.short limit budget hlt)
  · exact .inr ⟨hge, h.enough limit budget hge⟩

theorem Steps.concludes (h : f.Steps n s s') (hend : f.Concludes s' cost P) :
    f.Concludes s (n + cost) P := by
  constructor
  · intro limit budget hbudget
    rcases Nat.lt_or_ge budget n with hlt | hge
    · exact h.runFrom_of_lt limit hlt
    · obtain ⟨rest, rfl⟩ := Nat.exists_eq_add_of_le hge
      rw [h.runFrom_add]
      exact hend.short limit rest (by omega)
  · intro limit budget hbudget
    obtain ⟨rest, rfl⟩ : ∃ rest, budget = n + rest := ⟨budget - n, by omega⟩
    rw [h.runFrom_add]
    exact hend.enough limit rest (by omega)

theorem concludes_outcome_of_finished {data : List Scalar}
    (h : f.step s = .ok (.finished data)) :
    f.Concludes s 1 (· = .ok ⟨data, s.frame.steps + 1, s.visited⟩) := by
  constructor
  · intro limit budget hbudget
    obtain rfl : budget = 0 := by omega
    rfl
  · intro limit budget hbudget
    obtain ⟨rest, rfl⟩ : ∃ rest, budget = rest + 1 := ⟨budget - 1, by omega⟩
    rw [runFrom, h]

theorem concludes_of_finished {data : List Scalar} (h : f.step s = .ok (.finished data)) :
    f.Concludes s 1 fun x => ∃ o, x = .ok o ∧ o.returns = data := by
  have hend := concludes_outcome_of_finished h
  exact ⟨hend.short, fun limit budget hbudget => ⟨_, hend.enough limit budget hbudget, rfl⟩⟩

theorem concludes_of_error {e : RunError} (h : f.step s = .error e) :
    f.Concludes s 1 fun x => x = .error e := by
  constructor
  · intro limit budget hbudget
    obtain rfl : budget = 0 := by omega
    rfl
  · intro limit budget hbudget
    obtain ⟨rest, rfl⟩ : ∃ rest, budget = rest + 1 := ⟨budget - 1, by omega⟩
    rw [runFrom, h]

end Function

end FieldSSA
