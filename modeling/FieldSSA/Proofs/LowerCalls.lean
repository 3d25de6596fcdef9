import FieldSSA.Proofs.BuilderInvariants
import FieldSSA.Proofs.Emission

namespace FieldSSA

namespace Builder

variable {b b' b'' : Builder}

/-- Calls lead from one builder to another. -/
def Leads (b b' : Builder) : Prop :=
  ∃ calls : List BuildCall, b' = b.after calls

theorem Leads.refl (b : Builder) : b.Leads b :=
  ⟨[], rfl⟩

theorem Leads.of_eq (b b' : Builder) (h : b = b') : b.Leads b' :=
  h ▸ .refl b

theorem Leads.trans (b b' b'' : Builder) (h : b.Leads b') (h' : b'.Leads b'') : b.Leads b'' := by
  obtain ⟨calls, rfl⟩ := h
  obtain ⟨calls', rfl⟩ := h'
  exact ⟨calls ++ calls', by rw [after, after, after, List.foldl_append]⟩

end Builder

open Builder (Leads)

/-- A libfunc whose routine works on the builder that it is given through calls only. It may look
at the builder, stop with an error and go on after a call that failed, but it cannot put another
builder in its place. -/
def Libfunc.ByCalls (l : Libfunc) : Prop :=
  ∀ args, Moves Leads (l.lower args)

def Registry.ByCalls (r : Registry) : Prop :=
  ∀ l ∈ r.libfuncs, l.ByCalls

namespace Build

variable {α β : Type} {m : Build α}

theorem leads_of_action (call : BuildCall) {k : α → Unit} (hcall : call.action = k <$> m) :
    Moves Leads m := by
  intro b
  refine ⟨[call], ?_⟩
  have hrun : (k <$> m) b = (Except.map k (m b).1, (m b).2) := by
    change (m >>= fun a => pure (k a)) b = _
    rcases hm : m b with ⟨_ | a, b'⟩
    · exact bind_apply_of_error hm _
    · exact bind_apply_of_ok hm _
  change (m b).2 = (call.action b).2
  rw [hcall, hrun]

theorem leads_bind {k : α → Build β} (hm : Moves Leads m) (hk : ∀ a, Moves Leads (k a)) :
    Moves Leads (m >>= k) :=
  hm.bind Leads.trans hk

theorem leads_pure (a : α) : Moves Leads (pure a : Build α) :=
  fun b => .refl b

theorem leads_createBlock (params : List Ty) : Moves Leads (createBlock params) :=
  leads_of_action (.createBlock params) rfl

theorem leads_switchTo (id : BlockId) : Moves Leads (switchTo id) :=
  fun _ => ⟨[.switchTo id], rfl⟩

theorem leads_const (imm : Scalar) : Moves Leads (const imm) :=
  leads_of_action (.const imm) rfl

theorem leads_cmp (pred : Predicate) (lhs rhs : ValueId) : Moves Leads (cmp pred lhs rhs) :=
  leads_of_action (.cmp pred lhs rhs) rfl

theorem leads_call (callee : Intrinsic) (args : List ValueId) : Moves Leads (call callee args) :=
  leads_of_action (.call callee args) rfl

theorem leads_br (edge : Edge) : Moves Leads (br edge) :=
  fun _ => ⟨[.br edge], rfl⟩

theorem leads_condBr (cond : ValueId) (onTrue onFalse : Edge) :
    Moves Leads (condBr cond onTrue onFalse) :=
  fun _ => ⟨[.condBr cond onTrue onFalse], rfl⟩

theorem leads_ret (values : List ValueId) : Moves Leads (ret values) :=
  fun _ => ⟨[.ret values], rfl⟩

theorem leads_nextValue : Moves Leads nextValue :=
  fun b => .refl b

theorem leads_blockParams (id : BlockId) : Moves Leads (blockParams id) := by
  have hmap : blockParams id = block id >>= fun blk => pure blk.params := rfl
  rw [hmap]
  exact leads_bind ((moves_eq_block id).mono Leads.of_eq) fun _ => leads_pure _

theorem leads_move (callee : Intrinsic) (v : ValueId) (result : ValueId → β) :
    Moves Leads (do let next ← nextValue; let _ ← call callee [v]; return result next) :=
  leads_bind leads_nextValue fun _ => leads_bind (leads_call callee [v]) fun _ => leads_pure _

end Build

theorem Recipe.byCalls_libfunc (name : String) (r : Recipe) : (r.libfunc name).ByCalls := by
  intro args
  cases r with
  | constant imm => exact Build.leads_bind (Build.leads_const imm) fun _ => Build.leads_pure _
  | helper callee => exact Build.leads_call callee args
  | comparison ty pred =>
      match args with
      | lhs :: rhs :: _ =>
          exact Build.leads_bind (Build.leads_cmp pred lhs rhs) fun _ => Build.leads_pure _
      | [] | [_] => exact Build.leads_pure _
  | zeroTest ty =>
      match args with
      | v :: _ =>
          refine Build.leads_bind (Build.leads_const _) fun zero => ?_
          exact Build.leads_bind (Build.leads_cmp .eq v zero) fun _ => Build.leads_pure _
      | [] => exact Build.leads_pure _

namespace Registry

theorem byCalls_default : Registry.default.ByCalls := by
  intro l hl
  rw [Recipe.libfuncs_default_eq] at hl
  obtain ⟨p, -, rfl⟩ := List.mem_map.mp hl
  exact Recipe.byCalls_libfunc p.1 p.2

theorem ByCalls.insert {r : Registry} {l : Libfunc} (hr : r.ByCalls) (hl : l.ByCalls) :
    (r.insert l).ByCalls := by
  intro k hk
  rcases List.mem_append.mp hk with hk | hk
  · exact hr k (List.mem_of_mem_filter hk)
  · exact List.mem_singleton.mp hk ▸ hl

end Registry

namespace Working

/-- Calls lead from the builder of one workspace to that of another. -/
def LeadsTo (w w' : Workspace) : Prop :=
  w.builder.Leads w'.builder

theorem LeadsTo.trans (w w' w'' : Workspace) (h : LeadsTo w w') (h' : LeadsTo w' w'') :
    LeadsTo w w'' :=
  Leads.trans _ _ _ h h'

variable {h : Handle} {ty : Ty} {opIndex : Nat}

theorem leadsTo_build {α : Type} {steps : Build α} (hsteps : Moves Leads steps) :
    Moves LeadsTo (build steps) :=
  fun w => hsteps w.builder

theorem leadsTo_consume : Moves LeadsTo (consume h ty opIndex) := by
  intro w
  cases hlive : w.arena.checkLive h ty with
  | error e => exact consume_of_checkLive_error opIndex hlive ▸ Leads.refl w.builder
  | ok e => exact consume_of_checkLive opIndex hlive ▸ Leads.refl w.builder

theorem leadsTo_requireMaterialized : Moves LeadsTo (requireMaterialized h) := by
  intro w
  change LeadsTo w ((liftM (w.arena.requireMaterialized h) : Working Unit) w).2
  cases w.arena.requireMaterialized h <;> exact Leads.refl w.builder

theorem leadsTo_duplicate : Moves LeadsTo (duplicate h ty opIndex) := by
  refine .bind LeadsTo.trans leadsTo_consume fun e => ?_
  refine .bind LeadsTo.trans (leadsTo_build (Build.leads_move _ _ _)) fun copies w => ?_
  exact Leads.refl w.builder

theorem leadsTo_storeTemp : Moves LeadsTo (storeTemp h ty opIndex) := by
  refine .bind LeadsTo.trans leadsTo_consume fun e => ?_
  refine .bind LeadsTo.trans (leadsTo_build (Build.leads_move _ _ _)) fun stored w => ?_
  exact Leads.refl w.builder

theorem leadsTo_rename : Moves LeadsTo (rename h ty opIndex) := by
  refine .bind LeadsTo.trans leadsTo_consume fun e => ?_
  refine .bind LeadsTo.trans (leadsTo_build (Build.leads_move _ _ _)) fun renamed w => ?_
  exact Leads.refl w.builder

end Working

namespace Lower

variable {α β : Type} {c : LowerContext} {m m' : Lower α} {opIndex : Nat}

/-- Errors name the function that is lowered, and the builder is changed by calls if the libfuncs
do no more. -/
structure Proper (c : LowerContext) (m : Lower α) : Prop where
  named : ∀ s e, m.exec c s = .error e → e.function? = some c.function
  leads : c.registry.ByCalls → ∀ s a s', m.exec c s = .ok (a, s') →
    s.workspace.builder.Leads s'.workspace.builder

theorem Proper.of_ok {r : LowerState → α × LowerState} (h : ∀ s, m.exec c s = .ok (r s))
    (hleads : ∀ s : LowerState, s.workspace.builder.Leads (r s).2.workspace.builder) :
    Proper c m := by
  constructor
  · intro s e he
    simp [h s] at he
  · intro _ s a s' hs
    obtain rfl : (r s).2 = s' := by
      rw [h s] at hs
      exact congrArg Prod.snd (Except.ok.inj hs)
    exact hleads s

theorem Proper.of_error {e : EmitError} (h : ∀ s, m.exec c s = .error e)
    (hnamed : e.function? = some c.function) : Proper c m := by
  constructor
  · intro s e' he
    obtain rfl : e = e' := Except.error.inj ((h s).symm.trans he)
    exact hnamed
  · intro _ s a s' hs
    simp [h s] at hs

theorem Proper.bind {k : α → Lower β} (hm : Proper c m) (hk : ∀ a, Proper c (k a)) :
    Proper c (m >>= k) := by
  constructor
  · intro s e he
    rw [exec_bind] at he
    cases hrun : m.exec c s with
    | error e' =>
        rw [hrun, error_bind] at he
        obtain rfl : e' = e := Except.error.inj he
        exact hm.named s e' hrun
    | ok p =>
        rw [hrun, ok_bind] at he
        exact (hk p.1).named p.2 e he
  · intro hcalls s b s' hs
    rw [exec_bind] at hs
    obtain ⟨⟨a, t⟩, hrun, hs⟩ := bind_eq_ok_iff.mp hs
    exact Leads.trans _ _ _ (hm.leads hcalls s a t hrun) ((hk a).leads hcalls t b s' hs)

theorem Proper.pure (a : α) : Proper c (pure a : Lower α) :=
  .of_ok (fun _ => rfl) fun _ => .refl _

theorem Proper.get_bind {k : LowerState → Lower α} (hk : ∀ s, Proper c (k s)) :
    Proper c (get >>= k) :=
  Proper.bind (.of_ok (fun _ => rfl) fun _ => .refl _) hk

theorem Proper.builder_bind {k : Builder → Lower α} (hk : ∀ b, Proper c (k b)) :
    Proper c (builder >>= k) :=
  Proper.bind (.of_ok (fun _ => rfl) fun _ => .refl _) hk

theorem Proper.read_bind {k : LowerContext → Lower α} (hk : Proper c (k c)) :
    Proper c (read >>= k) := by
  have hexec : ∀ s, (read >>= k).exec c s = (k c).exec c s := fun s => by
    rw [exec_bind, exec_read, ok_bind]
  exact ⟨fun s e he => hk.named s e (hexec s ▸ he),
    fun hcalls s a s' hs => hk.leads hcalls s a s' (hexec s ▸ hs)⟩

theorem Proper.malformed (opIndex : Nat) (defect : Defect) :
    Proper c (malformed opIndex defect : Lower α) :=
  .of_error (fun _ => rfl) rfl

theorem Proper.guard {p : Prop} [Decidable p] {opIndex : Nat} {defect : Defect} {k : β → Lower α}
    (h : Proper c m) : Proper c (if p then Lower.malformed opIndex defect >>= k else m) := by
  split
  · exact .of_error (fun _ => rfl) rfl
  · exact h

theorem proper_build {steps : Build α} (h : c.registry.ByCalls → Moves Leads steps) :
    Proper c (build steps) := by
  constructor
  · intro s e he
    rcases hrun : steps s.workspace.builder with ⟨err | a, b⟩
    · simp only [exec, build, hrun, Except.mapError, Except.error.injEq] at he
      exact he ▸ rfl
    · simp [exec, build, hrun, Except.mapError] at he
  · intro hcalls s a s' hs
    have hsteps := h hcalls s.workspace.builder
    obtain ⟨b, hrun, rfl⟩ := exists_of_exec_build hs
    rwa [hrun] at hsteps

theorem function?_arenaError (function : String) (opIndex : Nat) (v : Var) (e : ArenaError) :
    (arenaError function opIndex v e).function? = some function := by
  cases e <;> rfl

theorem proper_working {steps : Working α} (v : Var) (h : Moves Working.LeadsTo steps) :
    Proper c (working opIndex v steps) := by
  constructor
  · intro s e he
    rcases hrun : steps s.workspace with ⟨err | a, w⟩
    · rw [exec_working_error c s hrun] at he
      exact Except.error.inj he ▸ function?_arenaError _ _ _ _
    · simp [exec_working c s hrun] at he
  · intro _ s a s' hs
    have hsteps := h s.workspace
    obtain ⟨w, hrun, rfl⟩ := exists_of_exec_working hs
    rwa [hrun] at hsteps

theorem proper_define (v : Var) (h : Handle) : Proper c (define opIndex v h) := by
  constructor
  · intro s e he
    rw [exec_define] at he
    split at he
    · exact Except.error.inj he ▸ rfl
    · cases he
  · intro _ s a s' hs
    rw [exec_define] at hs
    split at hs
    · cases hs
    · obtain rfl := congrArg Prod.snd (Except.ok.inj hs)
      exact .refl _

theorem proper_bind (value : ValueId) (ty : Ty) (storage : Storage) :
    Proper c (Lower.bind value ty storage) :=
  .of_ok (fun s => exec_bind_handle c s value ty storage) fun _ => .refl _

theorem proper_lookup (v : Var) : Proper c (lookup opIndex v) := by
  refine .get_bind fun s => ?_
  cases s.scope.lookup v with
  | none => exact .malformed _ _
  | some h => exact .pure h

theorem proper_target (l : Label) : Proper c (target opIndex l) := by
  refine .get_bind fun s => ?_
  cases s.labels.lookup l with
  | none => exact .malformed _ _
  | some id => exact .pure id

theorem proper_typeOf (v : ValueId) : Proper c (typeOf v) := by
  refine .builder_bind fun b => ?_
  cases b.valueType? v with
  | none => exact .of_error (fun _ => rfl) rfl
  | some ty => exact .pure ty

theorem proper_consume (v : Var) (ty : Ty) : Proper c (consume opIndex v ty) :=
  (proper_lookup v).bind fun _ =>
    (proper_working v Working.leadsTo_consume).bind fun e => .pure e.value

theorem proper_consumeStored (v : Var) (ty : Ty) : Proper c (consumeStored opIndex v ty) :=
  (proper_consume v ty).bind fun x => (proper_lookup v).bind fun _ =>
    (proper_working v Working.leadsTo_requireMaterialized).bind fun _ => .pure x

theorem proper_mapM {step : α → Lower β} (h : ∀ a, Proper c (step a)) (xs : List α) :
    Proper c (xs.mapM step) := by
  induction xs with
  | nil =>
      rw [List.mapM_nil]
      exact .pure []
  | cons x rest ih =>
      rw [List.mapM_cons]
      exact (h x).bind fun y => ih.bind fun ys => .pure (y :: ys)

theorem proper_checkArity (expected found : Nat) : Proper c (checkArity opIndex expected found) := by
  rw [checkArity]
  split
  · exact .malformed _ _
  · exact .pure ()

theorem proper_consumeAll (args : List (Var × Ty)) : Proper c (consumeAll opIndex args) := by
  refine proper_mapM ?_ args
  rintro ⟨v, ty⟩
  exact proper_consume v ty

theorem proper_consumeAllStored (args : List (Var × Ty)) :
    Proper c (consumeAllStored opIndex args) := by
  refine proper_mapM ?_ args
  rintro ⟨v, ty⟩
  exact proper_consumeStored v ty

theorem proper_edge (dest : BlockId) (args : List Var) : Proper c (edge opIndex dest args) := by
  rw [edge]
  refine (proper_build fun _ => Build.leads_blockParams dest).bind fun params => ?_
  refine (proper_checkArity _ _).bind fun _ => ?_
  refine (proper_mapM ?_ _).bind fun values => .pure _
  rintro ⟨v, param⟩
  exact (proper_typeOf param).bind fun ty => proper_consumeStored v ty

theorem proper_defineAll (storage : Nat → Storage) (position : Nat)
    (defs : List ((Var × Ty) × ValueId)) : Proper c (defineAll opIndex storage position defs) := by
  induction defs generalizing position with
  | nil => exact .pure ()
  | cons p rest ih =>
      exact (proper_bind _ _ _).bind fun h => (proper_define _ h).bind fun _ => ih (position + 1)

theorem proper_declareLabels (opIndex : Nat) (os : List Op) :
    Proper c (declareLabels opIndex os) := by
  induction os generalizing opIndex with
  | nil => exact .pure ()
  | cons o rest ih =>
      cases o with
      | label l params =>
          rw [declareLabels]
          refine .get_bind fun s => .guard ?_
          refine (proper_build fun _ => Build.leads_createBlock _).bind fun id => ?_
          exact Proper.bind (.of_ok (fun _ => rfl) fun _ => .refl _) fun _ => ih (opIndex + 1)
      | _ => exact ih (opIndex + 1)

theorem proper_defineParams (position : Nat) (params : List (Var × ValueId)) :
    Proper c (defineParams position params) := by
  induction params generalizing position with
  | nil => exact .pure ()
  | cons p rest ih =>
      exact (proper_typeOf p.2).bind fun ty => (proper_bind _ ty _).bind fun h =>
        (proper_define p.1 h).bind fun _ => ih (position + 1)

theorem proper_bindEntry (params : List Var) : Proper c (bindEntry params) :=
  .builder_bind fun _ => (proper_checkArity _ _).bind fun _ => proper_defineParams _ _

theorem proper_openBlock (l : Label) (params : List (Var × Ty)) :
    Proper c (openBlock opIndex l params) := by
  rw [openBlock]
  refine .builder_bind fun b => .guard ?_
  refine (proper_target l).bind fun id => ?_
  refine (proper_build fun _ => Build.leads_switchTo id).bind fun _ => ?_
  refine Proper.bind (.of_ok (fun _ => rfl) fun _ => .refl _) fun _ => ?_
  exact (proper_build fun _ => Build.leads_blockParams id).bind fun _ => proper_defineAll _ _ _

theorem proper_call (libfunc : String) (args results : List Var) :
    Proper c (call opIndex libfunc args results) := by
  rw [call]
  refine .read_bind ?_
  cases hget : c.registry.get? libfunc with
  | none => exact .of_error (fun _ => rfl) rfl
  | some l =>
      have hl (hcalls : c.registry.ByCalls) : l.ByCalls := hcalls l (List.mem_of_find?_eq_some hget)
      refine (proper_checkArity _ _).bind fun _ => .guard ?_
      refine (proper_consumeAll _).bind fun values => ?_
      exact (proper_build fun hcalls => hl hcalls values).bind fun _ => proper_defineAll _ _ _

theorem proper_op (opIndex : Nat) (o : Op) : Proper c (op opIndex o) := by
  unfold op
  refine .builder_bind fun b => .guard ?_
  cases o with
  | label l params => exact proper_openBlock l params
  | const dest value =>
      refine (proper_build fun _ => Build.leads_const value).bind fun v => ?_
      exact (proper_bind v value.ty .implicit).bind fun h => proper_define dest h
  | dup ty src first second =>
      refine (proper_lookup src).bind fun h => ?_
      refine (proper_working src Working.leadsTo_duplicate).bind fun copies => ?_
      exact (proper_define first _).bind fun _ => proper_define second _
  | storeTemp ty src dest =>
      refine (proper_lookup src).bind fun h => ?_
      exact (proper_working src Working.leadsTo_storeTemp).bind fun stored =>
        proper_define dest stored
  | rename ty src dest =>
      refine (proper_lookup src).bind fun h => ?_
      exact (proper_working src Working.leadsTo_rename).bind fun renamed =>
        proper_define dest renamed
  | call libfunc args results => exact proper_call libfunc args results
  | branch l args =>
      refine (proper_target l).bind fun dest => ?_
      exact (proper_edge dest args).bind fun edge => proper_build fun _ => Build.leads_br edge
  | condBranch cond onTrue trueArgs onFalse falseArgs =>
      refine (proper_consume cond .bool).bind fun v => ?_
      refine (proper_target onTrue).bind fun trueDest => ?_
      refine (proper_target onFalse).bind fun falseDest => ?_
      refine (proper_edge trueDest trueArgs).bind fun trueEdge => ?_
      refine (proper_edge falseDest falseArgs).bind fun falseEdge => ?_
      exact proper_build fun _ => Build.leads_condBr v trueEdge falseEdge
  | ret args =>
      refine .builder_bind fun b => ?_
      refine (proper_checkArity _ _).bind fun _ => ?_
      exact (proper_consumeAllStored _).bind fun values =>
        proper_build fun _ => Build.leads_ret values

theorem proper_ops (opIndex : Nat) (os : List Op) : Proper c (ops opIndex os) := by
  induction os generalizing opIndex with
  | nil => exact .pure ()
  | cons o rest ih => exact (proper_op opIndex o).bind fun _ => ih (opIndex + 1)

theorem proper_body (params : List Var) (os : List Op) : Proper c (body params os) := by
  refine (proper_declareLabels 0 os).bind fun _ => (proper_bindEntry params).bind fun _ => ?_
  refine (proper_ops 0 os).bind fun _ => .get_bind fun s => .guard ?_
  exact .pure _

end Lower

namespace Source

variable {s : Source} {registry : Registry} {config : Config}

/-- The function that an error of an emission belongs to is that of the source. -/
theorem function?_of_emit_eq_error {e : EmitError} (hconfig : config.validate = .ok ())
    (h : s.emit registry config = .error e) : e.function? = some s.name := by
  rw [emit_eq hconfig] at h
  cases hbody : (Lower.body s.paramVars s.ops).exec ⟨s.name, registry⟩ (LowerState.initial s) with
  | error e' =>
      rw [hbody, error_bind] at h
      obtain rfl : e' = e := Except.error.inj h
      exact (Lower.proper_body _ _).named _ _ hbody
  | ok p =>
      rw [hbody, ok_bind] at h
      obtain ⟨cause, rfl⟩ := exists_cause_of_sealWith h
      rfl

theorem sealed_of_sealWith {name : String} {b : Builder} {f : Function}
    (h : sealWith config name b = .ok f) : b.sealed = .ok f := by
  rw [sealWith] at h
  cases hverify : config.verify with
  | true =>
      cases hfinish : b.finish with
      | error e => simp [hverify, hfinish, Except.mapError] at h
      | ok g =>
          obtain rfl : g = f := by simpa [hverify, hfinish, Except.mapError] using h
          exact (Builder.finish_eq_ok_iff.mp hfinish).1
  | false =>
      cases hsealed : b.sealed with
      | error e => simp [hverify, hsealed, Except.mapError] at h
      | ok g =>
          by_cases hreached : g.unreachable = []
          · rw [hverify, hsealed, ok_bind, if_neg (by simp), checkReachable_of_eq_nil hreached] at h
            rw [Except.ok.inj h]
          · simp [hverify, hsealed, checkReachable_of_ne_nil hreached] at h

/-- An emitted function is what a builder of the source's signature is sealed as after calls, if
the libfuncs do nothing but calls. -/
theorem exists_calls_of_emit {f : Function} (hconfig : config.validate = .ok ())
    (hcalls : registry.ByCalls) (h : s.emit registry config = .ok f) :
    ∃ calls, ((Builder.ofSignature s.signature).after calls).sealed = .ok f := by
  rw [emit_eq hconfig] at h
  obtain ⟨⟨summary, s'⟩, hbody, hseal⟩ := bind_eq_ok_iff.mp h
  obtain ⟨calls, hbuilder⟩ := (Lower.proper_body _ _).leads hcalls _ _ _ hbody
  exact ⟨calls, hbuilder ▸ sealed_of_sealWith hseal⟩

theorem name_of_emit {f : Function} (hconfig : config.validate = .ok ())
    (hcalls : registry.ByCalls) (h : s.emit registry config = .ok f) : f.name = s.name := by
  obtain ⟨calls, hsealed⟩ := exists_calls_of_emit hconfig hcalls h
  have hsound := Builder.ofSignature_sound s.signature
  rw [Function.name, ← Builder.draft_of_sealed hsealed, Builder.draft,
    Builder.signature_after hsound]
  rfl

end Source

end FieldSSA
