import FieldSSA.Proofs.TypeSafety
import FieldSSA.Proofs.Runs

namespace FieldSSA

namespace Function

variable {f : Function}

/-- A run exceeds its budget, or it ends at a cost within the budget, the same way for all budgets
that cover the cost. -/
theorem runFrom_cases (limit budget : Nat) (s : MachineState) :
    f.runFrom limit budget s = .error (.stepLimitExceeded limit) ∨
      ∃ cost x, cost ≤ budget ∧ f.Concludes s cost (· = x) ∧
        ∀ o, x = .ok o → o.steps = s.frame.steps + cost := by
  induction budget generalizing s with
  | zero => exact .inl rfl
  | succ budget ih =>
      cases hstep : f.step s with
      | error e =>
          refine .inr ⟨1, .error e, by omega, concludes_of_error hstep, ?_⟩
          intro o ho
          cases ho
      | ok p =>
          cases p with
          | finished data =>
              refine .inr ⟨1, _, by omega, concludes_outcome_of_finished hstep, ?_⟩
              rintro o ⟨⟩
              rfl
          | running next =>
              have hfirst : f.Steps 1 s next := .step hstep .refl
              rcases ih next with hlimit | ⟨cost, x, hcost, hend, hsteps⟩
              · rw [runFrom, hstep]
                exact .inl hlimit
              · refine .inr ⟨1 + cost, x, by omega, hfirst.concludes hend, ?_⟩
                intro o ho
                rw [hsteps o ho, steps_of_step hstep]
                omega

/-- A run that returns needs exactly the steps that it reports. -/
theorem run_exact {args : List Scalar} {n : Nat} {o : Outcome} (h : f.run n args = .ok o)
    (m : Nat) :
    (f.run m args = .ok o ↔ o.steps ≤ m) ∧
      (m < o.steps → f.run m args = .error (.stepLimitExceeded m)) := by
  rcases f.run_cases args with ⟨e, herror⟩ | ⟨s, hstart, hrun⟩
  · simp [herror] at h
  · rw [hrun] at h ⊢
    rcases runFrom_cases n n s with hlimit | ⟨cost, x, hcost, hend, hsteps⟩
    · rw [hlimit] at h
      cases h
    · obtain rfl : x = .ok o := (hend.enough n n hcost).symm.trans h
      have hcost' : o.steps = cost := by
        rw [hsteps o rfl, hstart.steps, Nat.zero_add]
      subst hcost'
      refine ⟨⟨?_, hend.enough m m⟩, hend.short m m⟩
      intro hm
      by_contra hlt
      rw [hend.short m m (by omega)] at hm
      cases hm

/-- The budget is exact and monotone. What a run gives within a budget, other than that the budget
is exceeded, it gives within every larger budget; and a run that returns after a number of steps
returns the same within exactly the budgets from that number on, and exceeds all others. -/
theorem run_budget_exact (f : Function) (args : List Scalar) :
    (∀ n m, n ≤ m → f.run n args ≠ .error (.stepLimitExceeded n) →
      f.run m args = f.run n args) ∧
    ∀ n o, f.run n args = .ok o → ∀ m,
      (f.run m args = .ok o ↔ o.steps ≤ m) ∧
        (m < o.steps → f.run m args = .error (.stepLimitExceeded m)) := by
  refine ⟨?_, fun n o ho => run_exact ho⟩
  intro n m hle hne
  rcases f.run_cases args with ⟨e, herror⟩ | ⟨s, -, hrun⟩
  · rw [herror, herror]
  · simp only [hrun] at hne ⊢
    rcases runFrom_cases n n s with hlimit | ⟨cost, x, hcost, hend, -⟩
    · exact absurd hlimit hne
    · rw [hend.enough n n hcost, hend.enough m m (Nat.le_trans hcost hle)]

/-- Euclid's algorithm needs fourteen steps for these numbers. -/
theorem gcdLoop_budget_exact :
    ∃ o, gcdLoop.run 20 [.u32 12, .u32 18] = .ok o ∧
      gcdLoop.run 1000000 [.u32 12, .u32 18] = .ok o ∧
      gcdLoop.run 14 [.u32 12, .u32 18] = .ok o ∧
      gcdLoop.run 13 [.u32 12, .u32 18] = .error (.stepLimitExceeded 13) := by
  have hrun : gcdLoop.run 20 [.u32 12, .u32 18] =
      .ok ⟨[.u32 6], 14, [⟨0⟩, ⟨1⟩, ⟨1⟩, ⟨1⟩, ⟨2⟩]⟩ := by decide
  obtain ⟨hlarger, hexact⟩ := run_budget_exact gcdLoop [.u32 12, .u32 18]
  have hbudgets := hexact 20 _ hrun
  refine ⟨_, hrun, ?_, (hbudgets 14).1.mpr (by decide), (hbudgets 13).2 (by decide)⟩
  rw [hlarger 20 1000000 (by decide) (by simp [hrun]), hrun]

end Function

end FieldSSA
