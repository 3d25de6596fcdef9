import FieldSSA.Proofs.ErrorLocality

namespace FieldSSA

/-- The variables that an operation defines. A label defines its parameters, a call all of its
results. -/
def Op.definedVars : Op → List Var
  | label _ params => params.map Prod.fst
  | const dest _ | storeTemp _ _ dest | rename _ _ dest => [dest]
  | dup _ _ first second => [first, second]
  | call _ _ results => results
  | branch _ _ | condBranch _ _ _ _ _ | ret _ => []

/-- The variables that a source defines: its parameters first. -/
def Source.definedVars (s : Source) : List Var :=
  s.paramVars ++ s.ops.flatMap Op.definedVars

def Defect.isRepeat : Defect → Bool
  | redefinedVar _ | duplicateLabel _ => true
  | _ => false

/-- Whether an error reports a name that is defined a second time. -/
def EmitError.isRepeat (e : EmitError) : Bool :=
  e.defect?.any Defect.isRepeat

/-- Variables that are not in scope, and none of them twice. -/
def LowerState.Undefined (s : LowerState) (vars : List Var) : Prop :=
  vars.Nodup ∧ ∀ v ∈ vars, s.scope.lookup v = none

theorem map_fst_zip_sublist {α β : Type} (xs : List α) (ys : List β) :
    ((xs.zip ys).map Prod.fst).Sublist xs := by
  induction xs generalizing ys with
  | nil => exact .slnil
  | cons x rest ih =>
      cases ys with
      | nil => exact List.nil_sublist _
      | cons y ys => exact (ih ys).cons_cons x

namespace Lower

variable {α β : Type} {m : Lower α} {vars vars' : List Var} {opIndex : Nat}

/-- A step that brings no other variables into scope than these. If they are new, it does not fail
for a repeated name. -/
structure Brings (vars : List Var) (m : Lower α) : Prop where
  scope : ∀ {c s a s'}, m.exec c s = .ok (a, s') →
    ∀ v ∉ vars, s.scope.lookup v = none → s'.scope.lookup v = none
  fails : ∀ c s, s.Undefined vars → FailsIn (fun e => e.isRepeat = false) (m.exec c s)

theorem Brings.of_ok {r : LowerContext → LowerState → α × LowerState}
    (h : ∀ c s, m.exec c s = .ok (r c s))
    (hscope : ∀ c s v, s.scope.lookup v = none → (r c s).2.scope.lookup v = none) :
    Brings [] m := by
  constructor
  · intro c s a s' hs v _ hv
    obtain rfl : (r c s).2 = s' := by
      rw [h c s] at hs
      exact congrArg Prod.snd (Except.ok.inj hs)
    exact hscope c s v hv
  · intro c s _
    rw [h c s]
    exact .ok _

theorem Brings.of_error {e : LowerContext → LowerState → EmitError}
    (h : ∀ c s, m.exec c s = .error (e c s)) (hrepeat : ∀ c s, (e c s).isRepeat = false) :
    Brings vars m := by
  constructor
  · intro c s a s' hs
    simp [h c s] at hs
  · intro c s _
    rw [h c s]
    exact .error (hrepeat c s)

theorem Brings.malformed {defect : Defect} (h : defect.isRepeat = false) :
    Brings vars (malformed opIndex defect : Lower α) :=
  .of_error (fun _ _ => rfl) fun _ _ => h

theorem Brings.pure (a : α) : Brings [] (pure a : Lower α) :=
  .of_ok (fun _ _ => rfl) fun _ _ _ hv => hv

theorem Brings.bind {k : α → Lower β} (hm : Brings vars m) (hk : ∀ a, Brings vars' (k a)) :
    Brings (vars ++ vars') (m >>= k) := by
  constructor
  · intro c s b s' hs v hv hnone
    rw [List.mem_append, not_or] at hv
    rw [exec_bind] at hs
    obtain ⟨⟨a, t⟩, hrun, hs⟩ := bind_eq_ok_iff.mp hs
    exact (hk a).scope hs v hv.2 (hm.scope hrun v hv.1 hnone)
  · intro c s hnew
    obtain ⟨hnodup, hnone⟩ := hnew
    obtain ⟨hvars, hvars', hdisjoint⟩ := List.nodup_append'.mp hnodup
    rw [List.forall_mem_append] at hnone
    rw [exec_bind]
    refine (hm.fails c s ⟨hvars, hnone.1⟩).bind fun p hp => (hk p.1).fails c p.2 ⟨hvars', ?_⟩
    -- what the second step defines is not among what the first one brought
    intro v hv
    exact hm.scope hp v (fun hmem => hdisjoint hmem hv) (hnone.2 v hv)

theorem Brings.andThen {k : α → Lower β} (hm : Brings [] m) (hk : ∀ a, Brings vars (k a)) :
    Brings vars (m >>= k) :=
  hm.bind hk

theorem Brings.mono (hm : Brings vars m) (h : vars.Sublist vars') : Brings vars' m := by
  constructor
  · intro c s a s' hs v hv
    exact hm.scope hs v fun hmem => hv (h.subset hmem)
  · intro c s hnew
    exact hm.fails c s ⟨hnew.1.sublist h, fun v hv => hnew.2 v (h.subset hv)⟩

theorem Brings.guard {p : Prop} [Decidable p] {defect : Defect} {k : β → Lower α}
    (hdefect : defect.isRepeat = false) (h : Brings vars m) :
    Brings vars (if p then Lower.malformed opIndex defect >>= k else m) := by
  split
  · exact .of_error (fun _ _ => rfl) fun _ _ => hdefect
  · exact h

theorem Brings.get_bind {k : LowerState → Lower α} (hk : ∀ s, Brings vars (k s)) :
    Brings vars (get >>= k) :=
  Brings.andThen (.of_ok (fun _ _ => rfl) fun _ _ _ hv => hv) hk

theorem Brings.builder_bind {k : Builder → Lower α} (hk : ∀ b, Brings vars (k b)) :
    Brings vars (builder >>= k) :=
  Brings.andThen (.of_ok (fun _ _ => rfl) fun _ _ _ hv => hv) hk

theorem build_brings (steps : Build α) : Brings [] (build steps) := by
  constructor
  · intro c s a s' hs v _ hv
    obtain ⟨b, -, rfl⟩ := exists_of_exec_build hs
    exact hv
  · intro c s _ e he
    rcases hrun : steps s.workspace.builder with ⟨err | a, b⟩
    · simp only [exec, build, hrun, Except.mapError, Except.error.injEq] at he
      exact he ▸ rfl
    · simp [exec, build, hrun, Except.mapError] at he

theorem working_brings (v : Var) (steps : Working α) : Brings [] (working opIndex v steps) := by
  constructor
  · intro c s a s' hs w _ hw
    obtain ⟨workspace, -, rfl⟩ := exists_of_exec_working hs
    exact hw
  · intro c s _
    rcases hrun : steps s.workspace with ⟨err | a, w⟩
    · rw [exec_working_error c s hrun]
      exact .error (by cases err <;> rfl)
    · rw [exec_working c s hrun]
      exact .ok _

theorem bind_brings (value : ValueId) (ty : Ty) (storage : Storage) :
    Brings [] (Lower.bind value ty storage) :=
  .of_ok (fun c s => exec_bind_handle c s value ty storage) fun _ _ _ hv => hv

/-- The only step that brings a variable into scope, and that asks whether it is there. -/
theorem define_brings (v : Var) (h : Handle) : Brings [v] (define opIndex v h) := by
  constructor
  · intro c s a s' hs w hw hnone
    rw [exec_define] at hs
    split at hs
    · cases hs
    · obtain rfl := congrArg Prod.snd (Except.ok.inj hs)
      have hne : (w == v) = false := by simpa using hw
      simp only [List.lookup_cons, hne, hnone]
  · intro c s hnew
    have hnone : s.scope.lookup v = none := hnew.2 v (List.mem_singleton_self v)
    rw [exec_define, hnone, Option.isSome_none, if_neg Bool.false_ne_true]
    exact .ok _

theorem lookup_brings (v : Var) : Brings [] (lookup opIndex v) := by
  refine .get_bind fun s => ?_
  cases s.scope.lookup v with
  | none => exact .malformed rfl
  | some h => exact .pure h

theorem target_brings (l : Label) : Brings [] (target opIndex l) := by
  refine .get_bind fun s => ?_
  cases s.labels.lookup l with
  | none => exact .malformed rfl
  | some id => exact .pure id

theorem typeOf_brings (v : ValueId) : Brings [] (typeOf v) := by
  refine .builder_bind fun b => ?_
  cases b.valueType? v with
  | none => exact .of_error (fun _ _ => rfl) fun _ _ => rfl
  | some ty => exact .pure ty

theorem checkArity_brings (expected found : Nat) :
    Brings [] (checkArity opIndex expected found) := by
  rw [checkArity]
  split
  · exact .malformed rfl
  · exact .pure ()

theorem consume_brings (v : Var) (ty : Ty) : Brings [] (consume opIndex v ty) :=
  (lookup_brings v).andThen fun _ => (working_brings v _).andThen fun e => .pure e.value

theorem consumeStored_brings (v : Var) (ty : Ty) : Brings [] (consumeStored opIndex v ty) :=
  (consume_brings v ty).andThen fun x => (lookup_brings v).andThen fun _ =>
    (working_brings v _).andThen fun _ => .pure x

theorem mapM_brings {step : α → Lower β} (h : ∀ a, Brings [] (step a)) (xs : List α) :
    Brings [] (xs.mapM step) := by
  induction xs with
  | nil =>
      rw [List.mapM_nil]
      exact .pure []
  | cons x rest ih =>
      rw [List.mapM_cons]
      exact (h x).andThen fun y => ih.andThen fun ys => .pure (y :: ys)

theorem consumeAll_brings (args : List (Var × Ty)) : Brings [] (consumeAll opIndex args) := by
  refine mapM_brings ?_ args
  rintro ⟨v, ty⟩
  exact consume_brings v ty

theorem consumeAllStored_brings (args : List (Var × Ty)) :
    Brings [] (consumeAllStored opIndex args) := by
  refine mapM_brings ?_ args
  rintro ⟨v, ty⟩
  exact consumeStored_brings v ty

theorem edge_brings (dest : BlockId) (args : List Var) : Brings [] (edge opIndex dest args) := by
  rw [edge]
  refine (build_brings _).andThen fun params => (checkArity_brings _ _).andThen fun _ => ?_
  refine (mapM_brings ?_ _).andThen fun values => .pure _
  rintro ⟨v, param⟩
  exact (typeOf_brings param).andThen fun ty => consumeStored_brings v ty

theorem defineAll_brings (storage : Nat → Storage) (position : Nat)
    (defs : List ((Var × Ty) × ValueId)) :
    Brings ((defs.map Prod.fst).map Prod.fst) (defineAll opIndex storage position defs) := by
  induction defs generalizing position with
  | nil => exact .pure ()
  | cons d rest ih =>
      exact (bind_brings _ _ _).andThen fun h => (define_brings d.1.1 h).bind fun _ =>
        ih (position + 1)

theorem defineParams_brings (position : Nat) (params : List (Var × ValueId)) :
    Brings (params.map Prod.fst) (defineParams position params) := by
  induction params generalizing position with
  | nil => exact .pure ()
  | cons p rest ih =>
      exact (typeOf_brings p.2).andThen fun ty => (bind_brings _ ty _).andThen fun h =>
        (define_brings p.1 h).bind fun _ => ih (position + 1)

theorem bindEntry_brings (params : List Var) : Brings params (bindEntry params) :=
  .builder_bind fun _ => (checkArity_brings _ _).andThen fun _ =>
    (defineParams_brings _ _).mono (map_fst_zip_sublist _ _)

theorem openBlock_brings (l : Label) (params : List (Var × Ty)) :
    Brings (params.map Prod.fst) (openBlock opIndex l params) := by
  rw [openBlock]
  refine .builder_bind fun b => .guard rfl ((target_brings l).andThen fun id => ?_)
  refine (build_brings _).andThen fun _ => ?_
  refine Brings.andThen (.of_ok (fun _ _ => rfl) fun _ _ _ _ => rfl) fun _ => ?_
  exact (build_brings _).andThen fun _ =>
    (defineAll_brings _ _ _).mono ((map_fst_zip_sublist _ _).map Prod.fst)

theorem call_brings (libfunc : String) (args results : List Var) :
    Brings results (call opIndex libfunc args results) := by
  refine Brings.andThen (.of_ok (fun _ _ => rfl) fun _ _ _ hv => hv) fun c => ?_
  cases c.registry.get? libfunc with
  | none => exact .of_error (fun _ _ => rfl) fun _ _ => rfl
  | some l =>
      refine (checkArity_brings _ _).andThen fun _ => .guard rfl ?_
      refine (consumeAll_brings _).andThen fun values => (build_brings _).andThen fun _ => ?_
      refine (defineAll_brings _ _ _).mono ?_
      exact ((map_fst_zip_sublist _ _).map Prod.fst).trans (map_fst_zip_sublist _ _)

theorem op_brings (opIndex : Nat) (o : Op) : Brings o.definedVars (op opIndex o) := by
  unfold op
  refine .builder_bind fun b => .guard rfl ?_
  cases o with
  | label l params => exact openBlock_brings l params
  | const dest value =>
      refine (build_brings _).andThen fun v => ?_
      exact (bind_brings v value.ty .implicit).andThen fun h => define_brings dest h
  | dup ty src first second =>
      refine (lookup_brings src).andThen fun h => (working_brings src _).andThen fun copies => ?_
      exact (define_brings first _).bind fun _ => define_brings second _
  | storeTemp ty src dest =>
      refine (lookup_brings src).andThen fun h => ?_
      exact (working_brings src _).andThen fun stored => define_brings dest stored
  | rename ty src dest =>
      refine (lookup_brings src).andThen fun h => ?_
      exact (working_brings src _).andThen fun renamed => define_brings dest renamed
  | call libfunc args results => exact call_brings libfunc args results
  | branch l args =>
      refine (target_brings l).andThen fun dest => ?_
      exact (edge_brings dest args).andThen fun edge => build_brings _
  | condBranch cond onTrue trueArgs onFalse falseArgs =>
      refine (consume_brings cond .bool).andThen fun v => ?_
      refine (target_brings onTrue).andThen fun trueDest => ?_
      refine (target_brings onFalse).andThen fun falseDest => ?_
      refine (edge_brings trueDest trueArgs).andThen fun trueEdge => ?_
      exact (edge_brings falseDest falseArgs).andThen fun falseEdge => build_brings _
  | ret args =>
      refine .builder_bind fun b => (checkArity_brings _ _).andThen fun _ => ?_
      exact (consumeAllStored_brings _).andThen fun values => build_brings _

theorem ops_brings (opIndex : Nat) (os : List Op) :
    Brings (os.flatMap Op.definedVars) (ops opIndex os) := by
  induction os generalizing opIndex with
  | nil => exact .pure ()
  | cons o rest ih => exact (op_brings opIndex o).bind fun _ => ih (opIndex + 1)

theorem bodyAfterLabels_brings (params : List Var) (os : List Op) :
    Brings (params ++ os.flatMap Op.definedVars) (bodyAfterLabels params os) := by
  have hend : ∀ s : LowerState, Brings []
      (do
        if s.workspace.builder.current.isSome then malformed os.length .unterminatedBlock
        return s.summary : Lower Summary) :=
    fun s => .guard rfl (.pure s.summary)
  refine (bindEntry_brings params).bind fun _ => ?_
  rw [← List.append_nil (os.flatMap Op.definedVars)]
  exact (ops_brings 0 os).bind fun _ => .get_bind hend

end Lower

theorem EmitError.exists_opIndex_of_isRepeat {e : EmitError} (h : e.isRepeat = true) :
    ∃ i, e.opIndex? = some i := by
  cases e with
  | malformed function opIndex defect => exact ⟨opIndex, rfl⟩
  | _ => cases h

theorem LowerState.scope_declaredAll (s : LowerState) (labels : List (Label × List Ty)) :
    (s.declaredAll labels).scope = s.scope := by
  induction labels generalizing s with
  | nil => rfl
  | cons p rest ih =>
      rw [declaredAll_cons, ih]
      rfl

namespace Source

variable {s : Source} {registry : Registry} {c : Config} {e : EmitError}

/-- If no variable is defined twice, the only name that an emission is refused for is a label that
is placed twice. -/
theorem repeat_of_emit_eq_error (hc : c.validate = .ok ()) (hvars : s.definedVars.Nodup)
    (h : s.emit registry c = .error e) (hrepeat : e.isRepeat = true) :
    ¬ (placedLabels s.ops).Nodup ∧ ∃ l, e.defect? = some (.duplicateLabel l) := by
  obtain ⟨i, hi⟩ := EmitError.exists_opIndex_of_isRepeat hrepeat
  rw [emit_eq_error_iff hc hi, Lower.body_eq, Lower.exec_bind] at h
  rcases Lower.declareLabels_initial ⟨s.name, registry⟩ s with ⟨-, hlabels⟩ |
    ⟨before, l, params, after, hops, -, hl, hlabels⟩
  · rw [hlabels, ok_bind] at h
    -- the pass over the labels leaves nothing in scope, so all variables are new
    have hscope : ((LowerState.initial s).declaredAll (declaredLabels s.ops)).scope = [] :=
      LowerState.scope_declaredAll _ _
    have hnew : ((LowerState.initial s).declaredAll (declaredLabels s.ops)).Undefined
        s.definedVars := by
      refine ⟨hvars, fun v _ => ?_⟩
      rw [hscope]
      rfl
    have hfails := (Lower.bodyAfterLabels_brings s.paramVars s.ops).fails _ _ hnew e h
    exact absurd hrepeat (by simp [hfails])
  · rw [hlabels, error_bind] at h
    refine ⟨fun hnodup => ?_, l, by cases h; rfl⟩
    rw [hops, placedLabels, List.filterMap_append, List.nodup_append'] at hnodup
    exact hnodup.2.2 hl List.mem_cons_self

end Source

end FieldSSA
