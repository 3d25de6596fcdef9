import FieldSSA.Lowering.Emitter
import FieldSSA.Proofs.Outcome

/-!
Outcomes of lowering steps. The state after a failure is dropped, so an outcome is a result
with the state after it, or an error. A step is specified by a condition that it decides:
it succeeds exactly under the condition, and otherwise reports a defect of the source.
-/

namespace FieldSSA

/-- Errors that are laid to the source: a defect other than a missing handle, or a libfunc
that the registry lacks. -/
def EmitError.IsDefect : EmitError → Prop
  | .malformed _ _ (.unknownHandle _) => False
  | .malformed _ _ _ | .unsupported _ _ _ => True
  | _ => False

/-- The state with another builder. -/
def LowerState.built (s : LowerState) (b : Builder) : LowerState :=
  { s with workspace := { s.workspace with builder := b } }

@[simp]
theorem LowerState.built_builder (s : LowerState) (b : Builder) :
    (s.built b).workspace.builder = b := rfl

@[simp]
theorem LowerState.built_labels (s : LowerState) (b : Builder) :
    (s.built b).labels = s.labels := rfl

theorem LowerState.built_self (s : LowerState) : s.built s.workspace.builder = s := rfl

namespace Lower

variable {α β : Type}

def exec (m : Lower α) (c : LowerContext) (s : LowerState) : Except EmitError (α × LowerState) :=
  match m c s with
  | (.ok a, s') => .ok (a, s')
  | (.error e, _) => .error e

section Exec

variable (c : LowerContext) (s : LowerState)

@[simp]
theorem exec_bind (m : Lower α) (g : α → Lower β) :
    (m >>= g).exec c s = m.exec c s >>= fun p => (g p.1).exec c p.2 := by
  unfold exec
  simp only [Bind.bind, ReaderT.bind, ExceptT.bind, ExceptT.mk, StateT.bind, Except.bind]
  rcases m c s with ⟨_ | a, s'⟩ <;> rfl

@[simp]
theorem exec_pure (a : α) : (pure a : Lower α).exec c s = .ok (a, s) := rfl

@[simp]
theorem exec_get : (get : Lower LowerState).exec c s = .ok (s, s) := rfl

@[simp]
theorem exec_set (s' : LowerState) : (set s' : Lower PUnit).exec c s = .ok (⟨⟩, s') := rfl

@[simp]
theorem exec_modify (g : LowerState → LowerState) :
    (modify g : Lower PUnit).exec c s = .ok (⟨⟩, g s) := rfl

@[simp]
theorem exec_read : (read : Lower LowerContext).exec c s = .ok (c, s) := rfl

@[simp]
theorem exec_throw (e : EmitError) : (throw e : Lower α).exec c s = .error e := rfl

@[simp]
theorem exec_malformed (opIndex : Nat) (defect : Defect) :
    (malformed opIndex defect : Lower α).exec c s =
      .error (.malformed c.function opIndex defect) := rfl

@[simp]
theorem exec_builder : builder.exec c s = .ok (s.workspace.builder, s) := rfl

@[simp]
theorem exec_bind_handle (value : ValueId) (ty : Ty) (storage : Storage) :
    (Lower.bind value ty storage).exec c s =
      .ok ((s.workspace.arena.bind value ty storage).1,
        { s with workspace := { s.workspace with
          arena := (s.workspace.arena.bind value ty storage).2 } }) := rfl

theorem exec_build {steps : Build α} {a : α} {b : Builder}
    (h : steps s.workspace.builder = (.ok a, b)) :
    (build steps).exec c s = .ok (a, s.built b) := by
  simp [exec, build, h, Except.mapError, LowerState.built]

theorem exec_working {steps : Working α} {a : α} {w : Workspace} {opIndex : Nat} {var : Var}
    (h : steps s.workspace = (.ok a, w)) :
    (working opIndex var steps).exec c s = .ok (a, { s with workspace := w }) := by
  simp [exec, working, h, Except.mapError]

theorem exec_working_error {steps : Working α} {e : ArenaError} {w : Workspace} {opIndex : Nat}
    {var : Var} (h : steps s.workspace = (.error e, w)) :
    (working opIndex var steps).exec c s = .error (arenaError c.function opIndex var e) := by
  simp [exec, working, h, Except.mapError]

end Exec

section Inversion

variable {c : LowerContext} {s s' : LowerState} {a : α}

theorem exists_of_exec_build {steps : Build α} (h : (build steps).exec c s = .ok (a, s')) :
    ∃ b, steps s.workspace.builder = (.ok a, b) ∧ s.built b = s' := by
  rcases hsteps : steps s.workspace.builder with ⟨e | a', b⟩
  · simp [exec, build, hsteps, Except.mapError] at h
  · rw [exec_build c s hsteps] at h
    obtain ⟨rfl, rfl⟩ := Prod.mk.inj (Except.ok.inj h)
    exact ⟨b, rfl, rfl⟩

theorem exists_of_exec_working {steps : Working α} {opIndex : Nat} {var : Var}
    (h : (working opIndex var steps).exec c s = .ok (a, s')) :
    ∃ w, steps s.workspace = (.ok a, w) ∧ { s with workspace := w } = s' := by
  rcases hsteps : steps s.workspace with ⟨e | a', w⟩
  · rw [exec_working_error c s hsteps] at h
    cases h
  · rw [exec_working c s hsteps] at h
    obtain ⟨rfl, rfl⟩ := Prod.mk.inj (Except.ok.inj h)
    exact ⟨w, rfl, rfl⟩

end Inversion

/-- An outcome decides a condition: under the condition it is a result with a given
property, and otherwise a defect of the source. -/
structure Decides (r : Except EmitError (α × LowerState)) (p : Prop)
    (q : α → LowerState → Prop) : Prop where
  result : p → ∃ a s, r = .ok (a, s) ∧ q a s
  defect : ¬ p → ∃ e, r = .error e ∧ e.IsDefect

namespace Decides

variable {r : Except EmitError (α × LowerState)} {p p' : Prop} {q q' : α → LowerState → Prop}

theorem ok {a : α} {s : LowerState} (hp : p) (h : q a s) : Decides (.ok (a, s)) p q :=
  ⟨fun _ => ⟨a, s, rfl, h⟩, fun hnot => (hnot hp).elim⟩

theorem error {e : EmitError} (h : e.IsDefect) (hp : ¬ p) :
    Decides (.error e : Except EmitError (α × LowerState)) p q :=
  ⟨fun h => (hp h).elim, fun _ => ⟨e, rfl, h⟩⟩

theorem of_ok {a : α} {s : LowerState} (h : Decides r p q) (hr : r = .ok (a, s)) : p ∧ q a s := by
  by_cases hp : p
  · obtain ⟨a', s', hr', hq⟩ := h.result hp
    obtain ⟨rfl, rfl⟩ : a' = a ∧ s' = s := by simpa using hr'.symm.trans hr
    exact ⟨hp, hq⟩
  · obtain ⟨e, hr', -⟩ := h.defect hp
    cases hr'.symm.trans hr

theorem bind {g : α × LowerState → Except EmitError (β × LowerState)}
    {q' : β → LowerState → Prop} (h : Decides r p q)
    (hg : ∀ a s, p → q a s → Decides (g (a, s)) p' q') : Decides (r >>= g) (p ∧ p') q' := by
  constructor
  · rintro ⟨hp, hp'⟩
    obtain ⟨a, s, rfl, hq⟩ := h.result hp
    exact (hg a s hp hq).result hp'
  · intro hnot
    by_cases hp : p
    · obtain ⟨a, s, rfl, hq⟩ := h.result hp
      exact (hg a s hp hq).defect fun hp' => hnot ⟨hp, hp'⟩
    · obtain ⟨e, rfl, he⟩ := h.defect hp
      exact ⟨e, rfl, he⟩

theorem andThen {g : α × LowerState → Except EmitError (β × LowerState)}
    {q' : β → LowerState → Prop} (h : Decides r p q)
    (hg : ∀ a s, p → q a s → ∃ b s', g (a, s) = .ok (b, s') ∧ q' b s') :
    Decides (r >>= g) p q' := by
  have hbind : Decides (r >>= g) (p ∧ True) q' := h.bind fun a s hp hq => by
    obtain ⟨b, s', heq, hq'⟩ := hg a s hp hq
    rw [heq]
    exact .ok trivial hq'
  rwa [and_true] at hbind

theorem mono (h : Decides r p q) (hq : ∀ a s, p → q a s → q' a s) : Decides r p q' := by
  refine ⟨fun hp => ?_, h.defect⟩
  obtain ⟨a, s, hr, ha⟩ := h.result hp
  exact ⟨a, s, hr, hq a s hp ha⟩

theorem congr (h : Decides r p q) (hp : p ↔ p') : Decides r p' q :=
  propext hp ▸ h

theorem guard {P : Prop} [Decidable P] {c : LowerContext} {s : LowerState} {opIndex : Nat}
    {defect : Defect} {k : β → Lower α} {m : Lower α}
    (hdefect : (EmitError.malformed c.function opIndex defect).IsDefect)
    (h : ¬ P → Decides (m.exec c s) p q) :
    Decides ((if P then malformed opIndex defect >>= k else m).exec c s) (¬ P ∧ p) q := by
  by_cases hP : P
  · rw [if_pos hP, exec_bind, exec_malformed]
    exact .error hdefect fun h => h.1 hP
  · rw [if_neg hP]
    exact (h hP).congr (by simp [hP])

end Decides

end Lower

end FieldSSA
