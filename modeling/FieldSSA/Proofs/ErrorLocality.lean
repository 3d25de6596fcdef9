import FieldSSA.Proofs.Emission
import FieldSSA.Proofs.LabelPass
import FieldSSA.Proofs.LoweringContract

/-!
Errors of an emission point at the first operation that is at fault, and do not depend on the
operations after it. The only thing that is known of those beforehand is their labels with the
types of their parameters. A label that is placed twice is reported before anything else.
-/

namespace FieldSSA

/-- An error that points at no operation but a given one. -/
def EmitError.PointsAt (opIndex : Nat) (e : EmitError) : Prop :=
  ∀ i, e.opIndex? = some i → i = opIndex

namespace Lower

variable {α β : Type} {m : Lower α} {opIndex : Nat}

/-- All errors of a step point at a given operation. -/
def FailsAt (opIndex : Nat) (m : Lower α) : Prop :=
  ∀ c s, FailsIn (EmitError.PointsAt opIndex) (m.exec c s)

theorem FailsAt.of_ok {r : LowerContext → LowerState → α × LowerState}
    (h : ∀ c s, m.exec c s = .ok (r c s)) : FailsAt opIndex m := by
  intro c s
  rw [h c s]
  exact .ok _

theorem FailsAt.pure (a : α) : FailsAt opIndex (pure a : Lower α) :=
  .of_ok fun _ _ => rfl

theorem FailsAt.malformed (opIndex : Nat) (defect : Defect) :
    FailsAt opIndex (malformed opIndex defect : Lower α) :=
  fun _ _ => .error fun _ hi => (Option.some.inj hi).symm

theorem FailsAt.bind {k : α → Lower β} (hm : FailsAt opIndex m) (hk : ∀ a, FailsAt opIndex (k a)) :
    FailsAt opIndex (m >>= k) := by
  intro c s
  rw [exec_bind]
  exact (hm c s).bind fun p _ => hk p.1 c p.2

theorem FailsAt.guard {p : Prop} [Decidable p] {defect : Defect} {k : β → Lower α}
    (h : FailsAt opIndex m) :
    FailsAt opIndex (if p then Lower.malformed opIndex defect >>= k else m) := by
  split
  · exact fun _ _ => .error fun _ hi => (Option.some.inj hi).symm
  · exact h

theorem FailsAt.get_bind {k : LowerState → Lower α} (hk : ∀ s, FailsAt opIndex (k s)) :
    FailsAt opIndex (get >>= k) :=
  FailsAt.bind (.of_ok fun _ _ => rfl) hk

theorem FailsAt.builder_bind {k : Builder → Lower α} (hk : ∀ b, FailsAt opIndex (k b)) :
    FailsAt opIndex (builder >>= k) :=
  FailsAt.bind (.of_ok fun _ _ => rfl) hk

theorem build_failsAt (opIndex : Nat) (steps : Build α) : FailsAt opIndex (build steps) := by
  intro c s e he
  rcases hrun : steps s.workspace.builder with ⟨err | a, b⟩
  · simp only [exec, build, hrun, Except.mapError, Except.error.injEq] at he
    subst he
    rintro i ⟨⟩
  · simp [exec, build, hrun, Except.mapError] at he

theorem arenaError_pointsAt (function : String) (v : Var) (e : ArenaError) :
    (arenaError function opIndex v e).PointsAt opIndex := by
  intro i hi
  cases e <;> simp_all [arenaError, EmitError.opIndex?]

theorem working_failsAt (v : Var) (steps : Working α) :
    FailsAt opIndex (working opIndex v steps) := by
  intro c s
  rcases hrun : steps s.workspace with ⟨err | a, w⟩
  · rw [exec_working_error c s hrun]
    exact .error (arenaError_pointsAt c.function v err)
  · rw [exec_working c s hrun]
    exact .ok _

theorem define_failsAt (v : Var) (h : Handle) : FailsAt opIndex (define opIndex v h) := by
  refine .get_bind fun s => ?_
  split
  · exact .malformed _ _
  · exact .of_ok fun _ _ => rfl

theorem bind_failsAt (value : ValueId) (ty : Ty) (storage : Storage) :
    FailsAt opIndex (Lower.bind value ty storage) :=
  .of_ok fun c s => exec_bind_handle c s value ty storage

theorem lookup_failsAt (v : Var) : FailsAt opIndex (lookup opIndex v) := by
  refine .get_bind fun s => ?_
  cases s.scope.lookup v with
  | none => exact .malformed _ _
  | some h => exact .pure h

theorem target_failsAt (l : Label) : FailsAt opIndex (target opIndex l) := by
  refine .get_bind fun s => ?_
  cases s.labels.lookup l with
  | none => exact .malformed _ _
  | some id => exact .pure id

theorem typeOf_failsAt (v : ValueId) : FailsAt opIndex (typeOf v) := by
  refine .builder_bind fun b => ?_
  cases b.valueType? v with
  | none => exact fun _ _ => .error fun _ hi => by cases hi
  | some ty => exact .pure ty

theorem consume_failsAt (v : Var) (ty : Ty) : FailsAt opIndex (consume opIndex v ty) :=
  (lookup_failsAt v).bind fun _ => (working_failsAt v _).bind fun e => .pure e.value

theorem consumeStored_failsAt (v : Var) (ty : Ty) : FailsAt opIndex (consumeStored opIndex v ty) :=
  (consume_failsAt v ty).bind fun x => (lookup_failsAt v).bind fun _ =>
    (working_failsAt v _).bind fun _ => .pure x

theorem mapM_failsAt {step : α → Lower β} (h : ∀ a, FailsAt opIndex (step a)) (xs : List α) :
    FailsAt opIndex (xs.mapM step) := by
  induction xs with
  | nil =>
      rw [List.mapM_nil]
      exact .pure []
  | cons x rest ih =>
      rw [List.mapM_cons]
      exact (h x).bind fun y => ih.bind fun ys => .pure (y :: ys)

theorem checkArity_failsAt (expected found : Nat) :
    FailsAt opIndex (checkArity opIndex expected found) := by
  rw [checkArity]
  split
  · exact .malformed _ _
  · exact .pure ()

theorem consumeAll_failsAt (args : List (Var × Ty)) :
    FailsAt opIndex (consumeAll opIndex args) := by
  refine mapM_failsAt ?_ args
  rintro ⟨v, ty⟩
  exact consume_failsAt v ty

theorem consumeAllStored_failsAt (args : List (Var × Ty)) :
    FailsAt opIndex (consumeAllStored opIndex args) := by
  refine mapM_failsAt ?_ args
  rintro ⟨v, ty⟩
  exact consumeStored_failsAt v ty

theorem edge_failsAt (dest : BlockId) (args : List Var) :
    FailsAt opIndex (edge opIndex dest args) := by
  rw [edge]
  refine (build_failsAt opIndex _).bind fun params => (checkArity_failsAt _ _).bind fun _ => ?_
  refine (mapM_failsAt ?_ _).bind fun values => .pure _
  rintro ⟨v, param⟩
  exact (typeOf_failsAt param).bind fun ty => consumeStored_failsAt v ty

theorem defineAll_failsAt (storage : Nat → Storage) (position : Nat)
    (defs : List ((Var × Ty) × ValueId)) :
    FailsAt opIndex (defineAll opIndex storage position defs) := by
  induction defs generalizing position with
  | nil => exact .pure ()
  | cons p rest ih =>
      exact (bind_failsAt _ _ _).bind fun h => (define_failsAt _ h).bind fun _ => ih (position + 1)

theorem defineParams_failsAt (position : Nat) (params : List (Var × ValueId)) :
    FailsAt 0 (defineParams position params) := by
  induction params generalizing position with
  | nil => exact .pure ()
  | cons p rest ih =>
      exact (typeOf_failsAt p.2).bind fun ty => (bind_failsAt _ ty _).bind fun h =>
        (define_failsAt p.1 h).bind fun _ => ih (position + 1)

theorem bindEntry_failsAt (params : List Var) : FailsAt 0 (bindEntry params) :=
  .builder_bind fun _ => (checkArity_failsAt _ _).bind fun _ => defineParams_failsAt _ _

theorem openBlock_failsAt (l : Label) (params : List (Var × Ty)) :
    FailsAt opIndex (openBlock opIndex l params) := by
  rw [openBlock]
  refine .builder_bind fun b => .guard ((target_failsAt l).bind fun id => ?_)
  refine (build_failsAt opIndex _).bind fun _ => FailsAt.bind (.of_ok fun _ _ => rfl) fun _ => ?_
  exact (build_failsAt opIndex _).bind fun _ => defineAll_failsAt _ _ _

theorem call_failsAt (libfunc : String) (args results : List Var) :
    FailsAt opIndex (call opIndex libfunc args results) := by
  refine FailsAt.bind (.of_ok fun _ _ => rfl) fun c => ?_
  cases c.registry.get? libfunc with
  | none => exact fun _ _ => .error fun _ hi => (Option.some.inj hi).symm
  | some l =>
      refine (checkArity_failsAt _ _).bind fun _ => .guard ?_
      refine (consumeAll_failsAt _).bind fun values => ?_
      exact (build_failsAt opIndex _).bind fun _ => defineAll_failsAt _ _ _

theorem op_failsAt (opIndex : Nat) (o : Op) : FailsAt opIndex (op opIndex o) := by
  unfold op
  refine .builder_bind fun b => .guard ?_
  cases o with
  | label l params => exact openBlock_failsAt l params
  | const dest value =>
      refine (build_failsAt opIndex _).bind fun v => ?_
      exact (bind_failsAt v value.ty .implicit).bind fun h => define_failsAt dest h
  | dup ty src first second =>
      refine (lookup_failsAt src).bind fun h => (working_failsAt src _).bind fun copies => ?_
      exact (define_failsAt first _).bind fun _ => define_failsAt second _
  | storeTemp ty src dest =>
      refine (lookup_failsAt src).bind fun h => ?_
      exact (working_failsAt src _).bind fun stored => define_failsAt dest stored
  | rename ty src dest =>
      refine (lookup_failsAt src).bind fun h => ?_
      exact (working_failsAt src _).bind fun renamed => define_failsAt dest renamed
  | call libfunc args results => exact call_failsAt libfunc args results
  | branch l args =>
      refine (target_failsAt l).bind fun dest => ?_
      exact (edge_failsAt dest args).bind fun edge => build_failsAt opIndex _
  | condBranch cond onTrue trueArgs onFalse falseArgs =>
      refine (consume_failsAt cond .bool).bind fun v => ?_
      refine (target_failsAt onTrue).bind fun trueDest => ?_
      refine (target_failsAt onFalse).bind fun falseDest => ?_
      refine (edge_failsAt trueDest trueArgs).bind fun trueEdge => ?_
      exact (edge_failsAt falseDest falseArgs).bind fun falseEdge => build_failsAt opIndex _
  | ret args =>
      refine .builder_bind fun b => (checkArity_failsAt _ _).bind fun _ => ?_
      exact (consumeAllStored_failsAt _).bind fun values => build_failsAt opIndex _

section Stream

variable {c : LowerContext} {s : LowerState} {os : List Op} {e : EmitError}

/-- Operations fail at one of them, in the state that those before it leave. -/
theorem exists_op_of_ops_error (h : (ops opIndex os).exec c s = .error e) :
    ∃ before o after s', os = before ++ o :: after ∧
      (ops opIndex before).exec c s = .ok ((), s') ∧
      (op (opIndex + before.length) o).exec c s' = .error e := by
  induction os generalizing opIndex s with
  | nil => cases h
  | cons o rest ih =>
      rw [ops, exec_bind] at h
      cases hop : (op opIndex o).exec c s with
      | error e' =>
          rw [hop, error_bind] at h
          obtain rfl : e' = e := Except.error.inj h
          exact ⟨[], o, rest, s, rfl, rfl, hop⟩
      | ok p =>
          rw [hop, ok_bind] at h
          obtain ⟨before, o', after, s', rfl, hbefore, herror⟩ := ih h
          refine ⟨o :: before, o', after, s', rfl, ?_, ?_⟩
          · rw [ops, exec_bind, hop, ok_bind, hbefore]
          · rwa [List.length_cons, Nat.add_comm before.length, ← Nat.add_assoc]

theorem exec_ops_error {before : List Op} {o : Op} {s' : LowerState} (after : List Op)
    (hbefore : (ops opIndex before).exec c s = .ok ((), s'))
    (ho : (op (opIndex + before.length) o).exec c s' = .error e) :
    (ops opIndex (before ++ o :: after)).exec c s = .error e := by
  rw [exec_ops_append, hbefore, ok_bind, ops, exec_bind, ho, error_bind]

theorem append_cons_of_take_eq {α : Type} {xs before : List α} {x : α} {after : List α}
    (h : xs.take (before.length + 1) = (before ++ x :: after).take (before.length + 1)) :
    ∃ after', xs = before ++ x :: after' := by
  refine ⟨xs.drop (before.length + 1), ?_⟩
  conv_lhs => rw [← List.take_append_drop (before.length + 1) xs, h]
  simp [List.take_append]

/-- After the labels, an error that points at an operation depends only on the operations up to
that one. -/
theorem bodyAfterLabels_error_local {params : List Var} {i : Nat}
    (h : (bodyAfterLabels params os).exec c s = .error e) (hi : e.opIndex? = some i) :
    i ≤ os.length ∧ ∀ os' : List Op, os'.take (i + 1) = os.take (i + 1) →
      (bodyAfterLabels params os').exec c s = .error e := by
  simp only [bodyAfterLabels, exec_bind] at h ⊢
  cases hentry : (bindEntry params).exec c s with
  | error e' =>
      rw [hentry, error_bind] at h
      obtain rfl : e' = e := Except.error.inj h
      obtain rfl : i = 0 := bindEntry_failsAt params c s e' hentry i hi
      exact ⟨Nat.zero_le _, fun os' _ => rfl⟩
  | ok p =>
      rw [hentry, ok_bind] at h
      simp only [ok_bind]
      cases hops : (ops 0 os).exec c p.2 with
      | error e' =>
          rw [hops, error_bind] at h
          obtain rfl : e' = e := Except.error.inj h
          obtain ⟨before, o, after, s', rfl, hbefore, ho⟩ := exists_op_of_ops_error hops
          obtain rfl : i = before.length := by
            simpa using op_failsAt _ o c s' e' ho i hi
          refine ⟨by simp, fun os' htake => ?_⟩
          obtain ⟨after', rfl⟩ := append_cons_of_take_eq htake
          rw [exec_ops_error after' hbefore ho, error_bind]
      | ok q =>
          rw [hops, ok_bind, exec_get, ok_bind] at h
          -- only the end of the stream is left, so both streams are the same
          obtain rfl : i = os.length := by
            split at h
            · rw [exec_bind, exec_malformed, error_bind] at h
              cases h
              exact (Option.some.inj hi).symm
            · cases h
          refine ⟨Nat.le_refl _, fun os' htake => ?_⟩
          rw [List.take_of_length_le (Nat.le_succ os.length)] at htake
          have hlen : os'.length ≤ os.length := by
            have hmin := congrArg List.length htake
            rw [List.length_take] at hmin
            omega
          rw [List.take_of_length_le (Nat.le_succ_of_le hlen)] at htake
          subst htake
          rw [hops, ok_bind, exec_get, ok_bind]
          exact h

end Stream

end Lower

namespace Source

variable {s s' : Source} {registry : Registry} {c : Config}

/-- Sources that are the same up to a number of operations: the rest may differ, but for the labels
that it places and the types of their parameters. -/
structure AgreesUpTo (n : Nat) (s s' : Source) : Prop where
  name : s'.name = s.name
  params : s'.params = s.params
  returns : s'.returns = s.returns
  ops : s'.ops.take n = s.ops.take n
  labels : declaredLabels s'.ops = declaredLabels s.ops

/-- An emission fails at an operation exactly if the lowering does. -/
theorem emit_eq_error_iff (hc : c.validate = .ok ()) {e : EmitError} {i : Nat}
    (hi : e.opIndex? = some i) :
    s.emit registry c = .error e ↔
      (Lower.body s.paramVars s.ops).exec ⟨s.name, registry⟩ (.initial s) = .error e := by
  rw [emit_eq hc]
  cases (Lower.body s.paramVars s.ops).exec ⟨s.name, registry⟩ (.initial s) with
  | error e' => simp
  | ok p =>
      rw [ok_bind]
      constructor
      · intro h
        obtain ⟨cause, rfl⟩ := exists_cause_of_sealWith h
        simp [EmitError.opIndex?] at hi
      · intro h
        cases h

/-- An error that points at an operation comes from the operations up to that one: whatever
follows, sources that place the same labels fail with the same error. But a label that is placed
twice is reported first of all, at the first such place. -/
theorem emit_error_local (s : Source) (registry : Registry) (c : Config)
    (hc : c.validate = .ok ()) :
    (∀ e i, s.emit registry c = .error e → e.opIndex? = some i →
      (∀ l, e.defect? ≠ some (.duplicateLabel l)) →
        i ≤ s.ops.length ∧
          ∀ s', AgreesUpTo (i + 1) s s' → s'.emit registry c = .error e) ∧
    (¬ (placedLabels s.ops).Nodup →
      ∃ before l params after, s.ops = before ++ .label l params :: after ∧
        (placedLabels before).Nodup ∧ l ∈ placedLabels before ∧
        s.emit registry c = .error (.malformed s.name before.length (.duplicateLabel l))) := by
  constructor
  · intro e i herror hi hdefect
    rw [emit_eq_error_iff hc hi, Lower.body_eq, Lower.exec_bind] at herror
    rcases Lower.declareLabels_initial ⟨s.name, registry⟩ s with ⟨hnodup, hlabels⟩ |
      ⟨before, l, params, after, -, -, -, hlabels⟩
    · rw [hlabels, ok_bind] at herror
      obtain ⟨hle, hlocal⟩ := Lower.bodyAfterLabels_error_local herror hi
      refine ⟨hle, fun s' hagrees => ?_⟩
      -- the pass over the labels leaves the same state for both sources
      have hinitial : LowerState.initial s' = .initial s := by
        rw [LowerState.initial, signature, paramTypes, hagrees.name, hagrees.params,
          hagrees.returns]
        rfl
      have hlabels' : (Lower.declareLabels 0 s'.ops).exec ⟨s.name, registry⟩ (.initial s) =
          .ok ((), (LowerState.initial s).declaredAll (declaredLabels s.ops)) := by
        rcases Lower.declareLabels_initial ⟨s.name, registry⟩ s' with ⟨-, hlabels'⟩ |
          ⟨before, l, params, after, hops, hbefore, hl, -⟩
        · rwa [hinitial, hagrees.labels] at hlabels'
        · rw [← map_fst_declaredLabels, ← hagrees.labels, map_fst_declaredLabels, hops] at hnodup
          rw [placedLabels, List.filterMap_append, List.nodup_append'] at hnodup
          exact absurd (List.mem_cons_self) (hnodup.2.2 hl)
      rw [emit_eq_error_iff hc hi, paramVars, hagrees.name, hagrees.params, hinitial,
        Lower.body_eq, Lower.exec_bind, hlabels', ok_bind]
      exact hlocal s'.ops hagrees.ops
    · rw [hlabels, error_bind] at herror
      cases herror
      exact absurd rfl (hdefect l)
  · intro htwice
    rcases Lower.declareLabels_initial ⟨s.name, registry⟩ s with ⟨hnodup, -⟩ |
      ⟨before, l, params, after, hops, hbefore, hl, hlabels⟩
    · exact absurd hnodup htwice
    · refine ⟨before, l, params, after, hops, hbefore, hl, ?_⟩
      rw [emit_eq_error_iff hc rfl, Lower.body_eq, Lower.exec_bind, hlabels, error_bind]

/-- A source that returns a variable that nothing defines, and more operations. -/
def strayReturn (rest : List Op) : Source :=
  ⟨"stray", [], [.u32], .ret [⟨5⟩] :: rest⟩

/-- Whatever the other operations are, with one label of one word the error is the same. If they
place a label twice, this is reported instead. -/
theorem strayReturn_error_local :
    (∀ rest, declaredLabels rest = [(⟨0⟩, [.u32])] → (strayReturn rest).emit .default {} =
      .error (.malformed "stray" 0 (.undefinedVar ⟨5⟩))) ∧
    ∃ i l, (strayReturn [.label ⟨0⟩ [], .label ⟨0⟩ []]).emit .default {} =
      .error (.malformed "stray" i (.duplicateLabel l)) := by
  constructor
  · intro rest hlabels
    let shortest : Source := strayReturn [.label ⟨0⟩ [(⟨1⟩, .u32)]]
    have herror : shortest.emit .default {} =
        .error (.malformed "stray" 0 (.undefinedVar ⟨5⟩)) := by cbv
    have hlocal := (emit_error_local shortest .default {} rfl).1 _ 0 herror rfl
      (by simp [EmitError.defect?])
    exact hlocal.2 (strayReturn rest) ⟨rfl, rfl, rfl, rfl, hlabels⟩
  · obtain ⟨before, l, params, after, -, -, -, herror⟩ :=
      (emit_error_local (strayReturn [.label ⟨0⟩ [], .label ⟨0⟩ []]) .default {} rfl).2 (by decide)
    exact ⟨_, l, herror⟩

end Source

end FieldSSA
