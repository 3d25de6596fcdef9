import FieldSSA.Proofs.LowerVariables

namespace FieldSSA

open LowerState

theorem Working.consume_build {α β : Type} {w : Workspace} {h : Handle} {ty : Ty} {e : HandleEntry}
    (steps : ValueId → Build α) {a : α} {b : Builder} (opIndex : Nat)
    (hlive : w.arena.checkLive h ty = .ok e) (hsteps : steps e.value w.builder = (.ok a, b))
    (k : HandleEntry → α → Working β) :
    (do
      let e ← consume h ty opIndex
      let a ← build (steps e.value)
      k e a : Working β) w =
      k { e with consumedAt := some opIndex } a ⟨b, w.arena.markConsumed h opIndex⟩ := by
  rw [bind_apply_of_ok (consume_of_checkLive opIndex hlive)]
  refine bind_apply_of_ok ?_ _
  simp [build, hsteps, Except.mapError]

namespace LowerState

/-- One more temporary slot is in use. -/
def slotTaken (s : LowerState) : LowerState :=
  { s with workspace := { s.workspace with arena := { s.workspace.arena with
    slots := s.workspace.arena.slots + 1 } } }

theorem Tracks.slotTaken {g : Ledger} {s : LowerState} (ht : Tracks g s) :
    Tracks g s.slotTaken :=
  ⟨⟨ht.isScoped.bounded, ht.isScoped.handles⟩, ht.defined, ht.used, ht.stored, ht.typed⟩

/-- Code was added to a block, and variables came into scope with its outputs. -/
structure Grown (g : Ledger) (id : BlockId) (code : Code) (results : List Var)
    (s s' : LowerState) : Prop where
  builder : s'.workspace.builder =
    s.workspace.builder.extend id code.instructions code.types
  labels : s'.labels = s.labels
  values : s'.value? = Assignment.set s.value? results code.outputs
  tracks : Tracks g s'

/-- An operation was lowered to the code of its recipe. -/
def Advanced (src : Source) (g : Ledger) (o : Op) (id : BlockId) (s s' : LowerState) : Prop :=
  ∃ r args results xs, o.asCall? = some (r, args, results) ∧
    r.results.length = results.length ∧
    List.Forall₂ (fun v x => s.value? v = some x) args xs ∧
    s.workspace.builder.draft.HasTypes xs r.params ∧
    Grown (g.record src o) id (r.code s.workspace.builder.valueTypes.length xs) results s s'

end LowerState

namespace Lower

variable {src : Source} {g : Ledger} {s s₂ : LowerState} {c : LowerContext} {opIndex : Nat}
  {id : BlockId} {blk : OpenBlock}

/-- Where a block is open, every operation but a label passes the first check. -/
theorem exec_if_open {o : Op} {k m : Lower Unit} (hlabel : o.isLabel = false)
    (hcurrent : s.workspace.builder.current = some id) :
    (builder >>= fun b => if (!o.isLabel && b.current.isNone) = true then k else m).exec c s =
      m.exec c s := by
  rw [exec_bind, exec_builder, ok_bind]
  simp [hlabel, hcurrent]

theorem exec_define (v : Var) (h : Handle) :
    (define opIndex v h).exec c s =
      if (s.scope.lookup v).isSome then .error (.malformed c.function opIndex (.redefinedVar v))
      else .ok ((), { s with scope := (v, h) :: s.scope }) := by
  rw [define, exec_bind, exec_get, ok_bind]
  split <;> rfl

section Move

variable {ty : Ty} {v dest first second : Var} {h : Handle} {e : HandleEntry}

theorem exec_working_dup (hopen : s.workspace.builder.OpenAt id blk)
    (hlive : s.workspace.arena.checkLive h ty = .ok e) :
    (working opIndex v (Working.duplicate h ty opIndex)).exec c s =
      (do
        let first ← Lower.bind ⟨s.workspace.builder.valueTypes.length⟩ ty e.storage
        let second ← Lower.bind ⟨s.workspace.builder.valueTypes.length + 1⟩ ty e.storage
        return (first, second) : Lower (Handle × Handle)).exec c
        ((s.consumed h opIndex).built (s.workspace.builder.extend id
          [.call (.dup ty) [e.value] (s.workspace.builder.fresh [ty, ty])] [ty, ty])) :=
  exec_working _ _ (Working.consume_build (Build.dup ty) opIndex hlive
    (Build.dup_of_openAt hopen ty e.value) _)

theorem exec_working_rename (hopen : s.workspace.builder.OpenAt id blk)
    (hlive : s.workspace.arena.checkLive h ty = .ok e) :
    (working opIndex v (Working.rename h ty opIndex)).exec c s =
      (Lower.bind ⟨s.workspace.builder.valueTypes.length⟩ ty e.storage).exec c
        ((s.consumed h opIndex).built (s.workspace.builder.extend id
          [.call (.rename ty) [e.value] (s.workspace.builder.fresh [ty])] [ty])) :=
  exec_working _ _ (Working.consume_build (Build.rename ty) opIndex hlive
    (Build.rename_of_openAt hopen ty e.value) _)

theorem exec_working_storeTemp (hopen : s.workspace.builder.OpenAt id blk)
    (hlive : s.workspace.arena.checkLive h ty = .ok e) :
    (working opIndex v (Working.storeTemp h ty opIndex)).exec c s =
      (Lower.bind ⟨s.workspace.builder.valueTypes.length⟩ ty (.temp s.workspace.arena.slots)).exec c
        ((s.consumed h opIndex).built (s.workspace.builder.extend id
          [.call (.storeTemp ty) [e.value] (s.workspace.builder.fresh [ty])] [ty])).slotTaken :=
  exec_working _ _ (Working.consume_build (Build.storeTemp ty) opIndex hlive
    (Build.storeTemp_of_openAt hopen ty e.value) _)

/-- Two handles that are made first and defined after are defined one by one. -/
theorem exec_define_pair (t : LowerState) (x y : ValueId) (storage : Storage) :
    ((do
        let first ← Lower.bind x ty storage
        let second ← Lower.bind y ty storage
        return (first, second) : Lower (Handle × Handle)).exec c t >>= fun p =>
      (do
        define opIndex first p.1.1
        define opIndex second p.1.2 : Lower Unit).exec c p.2) =
      (defineAll opIndex (fun _ => storage) 0 [((first, ty), x), ((second, ty), y)]).exec c t := by
  simp only [defineAll, exec_bind, exec_bind_handle, exec_define, exec_pure, ok_bind]
  cases t.scope.lookup first with
  | some h => rfl
  | none =>
      simp only [Option.isSome_none, Bool.false_eq_true, if_false, ok_bind]
      split <;> rfl

theorem exec_define_single (t : LowerState) (x : ValueId) (storage : Storage) :
    ((Lower.bind x ty storage).exec c t >>= fun p => (define opIndex dest p.1).exec c p.2) =
      (defineAll opIndex (fun _ => storage) 0 [((dest, ty), x)]).exec c t := by
  simp only [defineAll, exec_bind, exec_bind_handle, exec_define, exec_pure, ok_bind]
  split <;> rfl

end Move

/-- The results of an operation come into scope after its code was added. -/
theorem defineResults_decides {o : Op} {r : Recipe} {args results : List Var}
    {xs : List ValueId} {storage : Storage} (src : Source) (ht : Tracks (g.use args) s₂)
    (hcall : o.asCall? = some (r, args, results)) (hparams : r.params.length = args.length)
    (hresults : r.results.length = results.length)
    (hxs : s.workspace.builder.draft.HasTypes xs r.params)
    (hbuilder : s₂.workspace.builder = s.workspace.builder.extend id
      (r.code s.workspace.builder.valueTypes.length xs).instructions
      (r.code s.workspace.builder.valueTypes.length xs).types)
    (hlabels : s₂.labels = s.labels) (hvalues : s₂.value? = s.value?)
    (hstores : o.stores g.stored = if storage.isMaterialized then results else []) :
    Decides ((defineAll opIndex (fun _ => storage) 0 ((results.zip r.results).zip
        (r.code s.workspace.builder.valueTypes.length xs).outputs)).exec c s₂) (g.Lacks o.defs)
      fun _ s' => Grown (g.record src o) id (r.code s.workspace.builder.valueTypes.length xs)
        results s s' := by
  have hgrow : s.workspace.builder.valueTypes <+: s₂.workspace.builder.valueTypes := by
    rw [hbuilder]
    exact List.prefix_append _ _
  have houtputs : s₂.workspace.builder.draft.HasTypes
      (r.code s.workspace.builder.valueTypes.length xs).outputs r.results := by
    refine (Recipe.code_typed (Builder.hasTypes_of_grows hgrow hxs) (List.Subset.refl xs) ?_).2
    rw [hbuilder]
    exact Builder.hasTypes_numbered rfl
  have hledger : (g.use args).define o.defs storage.isMaterialized = g.record src o := by
    rw [Ledger.record, hstores, Source.reads_of_asCall? hcall, Op.defs_of_asCall? hcall,
      List.map_fst_zip (Nat.le_of_eq hparams.symm), Ledger.define,
      List.map_fst_zip (Nat.le_of_eq hresults.symm)]
    rfl
  rw [← hledger, Ledger.lacks_use_iff.symm, Op.defs_of_asCall? hcall]
  refine (defineAll_decides (fun _ => rfl) (forall₂_zip hresults.symm houtputs) rfl ht).mono
    fun _ s' _ hbrought => ?_
  refine ⟨hbrought.builder.trans hbuilder, hbrought.labels.trans hlabels, ?_, hbrought.tracks⟩
  rw [hbrought.values, hvalues, List.map_fst_zip (Nat.le_of_eq hresults.symm)]

section Step

variable {ty : Ty} {v dest first second : Var}

theorem exec_consume_error {α : Type} {h : Handle} {err : ArenaError}
    {k : HandleEntry → Working α} (hlive : s.workspace.arena.checkLive h ty = .error err) :
    (working opIndex v (Working.consume h ty opIndex >>= k)).exec c s =
      .error (arenaError c.function opIndex v err) :=
  exec_working_error _ _
    (bind_apply_of_error (Working.consume_of_checkLive_error opIndex hlive) _)

/-- A step on the handle of a variable that the ledger may offer. -/
theorem move_decides {steps : Handle → Lower Unit} {p : Prop} {q : Unit → LowerState → Prop}
    (ht : Tracks g s)
    (hok : ∀ h e, s.scope.lookup v = some h → s.env v = some e →
      s.workspace.arena.checkLive h ty = .ok e → s.workspace.builder.draft.HasTypes [e.value] [ty] →
      Decides ((steps h).exec c s) p q)
    (herror : ∀ h err, s.workspace.arena.checkLive h ty = .error err →
      (steps h).exec c s = .error (arenaError c.function opIndex v err)) :
    Decides ((lookup opIndex v >>= steps).exec c s) (g.Offers [(v, ty)] ∧ p) q := by
  rw [exec_bind, exec_lookup]
  rcases checkLive_cases c opIndex ht v ty with
    ⟨hoffers, h, e, hv, he, hlive⟩ | ⟨hnot, hv | ⟨h, err, hv, hlive, hdefect⟩⟩
  · rw [hv, ok_bind]
    have hx : s.value? v = some e.value := by simp [value?, he]
    have htyped := ht.value? (Ledger.offers_singleton_iff.mp hoffers).1 hx
    exact (hok h e hv he hlive (.cons htyped .nil)).congr (by simp [hoffers])
  · rw [hv]
    exact .error trivial fun h => hnot h.1
  · rw [hv, ok_bind, herror h err hlive]
    exact .error hdefect fun h => hnot h.1

theorem op_dup_decides (hopen : s.workspace.builder.OpenAt id blk) (ht : Tracks g s) :
    Decides ((op opIndex (.dup ty v first second)).exec c s)
      (g.Offers [(v, ty)] ∧ g.Lacks (Op.dup ty v first second).defs)
      fun _ s' => Advanced src g (.dup ty v first second) id s s' := by
  rw [op, exec_if_open rfl hopen.current]
  refine move_decides ht ?_ ?_
  · intro h e hv he hlive hx
    rw [exec_bind, exec_working_dup hopen hlive, exec_define_pair]
    have hstores : (Op.dup ty v first second).stores g.stored =
        if e.storage.isMaterialized then [first, second] else [] := by
      simp [Op.stores, ht.stored, he]
    refine (defineResults_decides (r := .helper (.dup ty)) src
      ((ht.consumed hv).built (List.prefix_append _ _)) rfl rfl rfl hx rfl rfl
      (value?_consumed ht.isScoped hv) hstores).mono fun _ s' _ hgrown => ?_
    exact ⟨_, _, _, _, rfl, rfl, .cons (by simp [value?, he]) .nil, hx, hgrown⟩
  · intro h err hlive
    rw [exec_bind, Working.duplicate, exec_consume_error hlive]
    rfl

theorem op_rename_decides (hopen : s.workspace.builder.OpenAt id blk) (ht : Tracks g s) :
    Decides ((op opIndex (.rename ty v dest)).exec c s)
      (g.Offers [(v, ty)] ∧ g.Lacks (Op.rename ty v dest).defs)
      fun _ s' => Advanced src g (.rename ty v dest) id s s' := by
  rw [op, exec_if_open rfl hopen.current]
  refine move_decides ht ?_ ?_
  · intro h e hv he hlive hx
    rw [exec_bind, exec_working_rename hopen hlive, exec_define_single]
    have hstores : (Op.rename ty v dest).stores g.stored =
        if e.storage.isMaterialized then [dest] else [] := by
      simp [Op.stores, ht.stored, he]
    refine (defineResults_decides (r := .helper (.rename ty)) src
      ((ht.consumed hv).built (List.prefix_append _ _)) rfl rfl rfl hx rfl rfl
      (value?_consumed ht.isScoped hv) hstores).mono fun _ s' _ hgrown => ?_
    exact ⟨_, _, _, _, rfl, rfl, .cons (by simp [value?, he]) .nil, hx, hgrown⟩
  · intro h err hlive
    rw [exec_bind, Working.rename, exec_consume_error hlive]
    rfl

theorem op_storeTemp_decides (hopen : s.workspace.builder.OpenAt id blk) (ht : Tracks g s) :
    Decides ((op opIndex (.storeTemp ty v dest)).exec c s)
      (g.Offers [(v, ty)] ∧ g.Lacks (Op.storeTemp ty v dest).defs)
      fun _ s' => Advanced src g (.storeTemp ty v dest) id s s' := by
  rw [op, exec_if_open rfl hopen.current]
  refine move_decides ht ?_ ?_
  · intro h e hv he hlive hx
    rw [exec_bind, exec_working_storeTemp hopen hlive, exec_define_single]
    have hstores : (Op.storeTemp ty v dest).stores g.stored =
        if (Storage.temp s.workspace.arena.slots).isMaterialized then [dest] else [] := rfl
    refine (defineResults_decides (r := .helper (.storeTemp ty)) src
      ((ht.consumed hv).built (List.prefix_append _ _)).slotTaken rfl rfl rfl hx rfl rfl
      (value?_consumed ht.isScoped hv) hstores).mono fun _ s' _ hgrown => ?_
    exact ⟨_, _, _, _, rfl, rfl, .cons (by simp [value?, he]) .nil, hx, hgrown⟩
  · intro h err hlive
    rw [exec_bind, Working.storeTemp, exec_consume_error hlive]
    rfl

theorem op_const_decides {value : Scalar} (hopen : s.workspace.builder.OpenAt id blk)
    (ht : Tracks g s) :
    Decides ((op opIndex (.const dest value)).exec c s) (g.Lacks (Op.const dest value).defs)
      fun _ s' => Advanced src g (.const dest value) id s s' := by
  rw [op, exec_if_open rfl hopen.current]
  rw [exec_bind, exec_build _ _ (Build.const_of_openAt hopen value), ok_bind, exec_bind,
    exec_define_single]
  have hstores : (Op.const dest value).stores g.stored =
      if Storage.implicit.isMaterialized then [dest] else [] := rfl
  refine (defineResults_decides (r := .constant value) src
    ((Spent.refl ht).tracks.built (List.prefix_append _ _)) rfl rfl rfl .nil rfl rfl rfl
    hstores).mono fun _ s' _ hgrown => ?_
  exact ⟨_, _, _, _, rfl, rfl, .nil, .nil, hgrown⟩

theorem op_call_decides {libfunc : String} {args results : List Var} {r : Recipe}
    (hregistry : c.registry = .default) (hr : Recipe.builtin.lookup libfunc = some r)
    (hopen : s.workspace.builder.OpenAt id blk) (ht : Tracks g s) :
    Decides ((op opIndex (.call libfunc args results)).exec c s)
      (r.params.length = args.length ∧ r.results.length = results.length ∧
        g.Offers (args.zip r.params) ∧ g.Lacks (Op.call libfunc args results).defs)
      fun _ s' => Advanced src g (.call libfunc args results) id s s' := by
  have hcall : (Op.call libfunc args results).asCall? = some (r, args, results) := by
    simp [Op.asCall?, hr]
  have hget : Registry.default.get? libfunc = some (r.libfunc libfunc) := by
    rw [Recipe.get?_default, hr, Option.map_some]
  rw [op, exec_if_open rfl hopen.current]
  rw [call, exec_bind, exec_read, ok_bind, hregistry]
  simp only [hget, Recipe.libfunc_params, Recipe.libfunc_results]
  rw [exec_bind]
  refine (checkArity_decides _ _ _).bind ?_
  rintro - s₁ hparams rfl
  refine (Decides.guard ?_ fun hresults => ?_).congr (and_congr_left fun _ => not_not)
  · trivial
  have hresults := not_not.mp hresults
  rw [exec_bind]
  refine (consumeAll_decides ht).bind ?_
  rintro xs s₁ hoffers ⟨hxs, hspent⟩
  rw [List.map_fst_zip (Nat.le_of_eq hparams.symm)] at hspent
  obtain ⟨hvalues, htypes⟩ := ht.hasTypes hparams hoffers.defined hxs
  have hlower := Recipe.lower_libfunc (hspent.builder.symm ▸ hopen) libfunc r htypes.length_eq
  rw [exec_bind, exec_build _ _ hlower, ok_bind, hspent.builder]
  have hstores : (Op.call libfunc args results).stores g.stored =
      if Storage.implicit.isMaterialized then results else [] := rfl
  have hs₂ := hspent.tracks.built (b := s.workspace.builder.extend id
    (r.code s.workspace.builder.valueTypes.length xs).instructions
    (r.code s.workspace.builder.valueTypes.length xs).types)
    (hspent.builder.symm ▸ List.prefix_append _ _)
  refine (defineResults_decides src hs₂ hcall hparams hresults htypes rfl hspent.labels
    hspent.values hstores).mono fun _ s' _ hgrown => ?_
  exact ⟨r, args, results, xs, hcall, hresults, hvalues, htypes, hgrown⟩

/-- An operation that goes on in its block is lowered exactly if the ledger admits it. -/
theorem op_body_decides {o : Op} (hregistry : c.registry = .default)
    (hlabel : o.isLabel = false) (hterm : o.isTerminator = false)
    (hopen : s.workspace.builder.OpenAt id blk) (ht : Tracks g s) :
    Decides ((op opIndex o).exec c s) (g.Admits src o) fun _ s' => Advanced src g o id s s' := by
  cases o with
  | const dest value =>
      refine (op_const_decides hopen ht).congr ⟨fun hdefs => ?_, fun h => h.defs⟩
      exact ⟨trivial, g.offers_nil, hdefs, List.nil_subset _⟩
  | dup ty v first second =>
      refine (op_dup_decides hopen ht).congr ⟨fun h => ?_, fun h => ⟨h.reads, h.defs⟩⟩
      exact ⟨trivial, h.1, h.2, List.nil_subset _⟩
  | storeTemp ty v dest =>
      refine (op_storeTemp_decides hopen ht).congr ⟨fun h => ?_, fun h => ⟨h.reads, h.defs⟩⟩
      exact ⟨trivial, h.1, h.2, List.nil_subset _⟩
  | rename ty v dest =>
      refine (op_rename_decides hopen ht).congr ⟨fun h => ?_, fun h => ⟨h.reads, h.defs⟩⟩
      exact ⟨trivial, h.1, h.2, List.nil_subset _⟩
  | call libfunc args results =>
      cases hr : Recipe.builtin.lookup libfunc with
      | none =>
          have hget : Registry.default.get? libfunc = none := by
            rw [Recipe.get?_default, hr, Option.map_none]
          rw [op, exec_if_open rfl hopen.current]
          rw [call, exec_bind, exec_read, ok_bind, hregistry]
          simp only [hget, exec_throw]
          refine .error trivial fun h => ?_
          obtain ⟨l, hl, -⟩ := h.fits
          simp [hget] at hl
      | some r =>
          have hcall : (Op.call libfunc args results).asCall? = some (r, args, results) := by
            simp [Op.asCall?, hr]
          have hfits := Source.fits_iff_of_asCall? (s := src) hcall
          have hreads := Source.reads_of_asCall? (s := src) hcall
          refine (op_call_decides hregistry hr hopen ht).congr ⟨fun h => ?_, fun h => ?_⟩
          · exact ⟨hfits.mpr ⟨h.1, h.2.1⟩, hreads ▸ h.2.2.1, h.2.2.2, List.nil_subset _⟩
          · exact ⟨(hfits.mp h.fits).1, (hfits.mp h.fits).2, hreads ▸ h.reads, h.defs⟩
  | label _ _ => simp [Op.isLabel] at hlabel
  | branch _ _ | condBranch _ _ _ _ _ | ret _ => simp [Op.isTerminator] at hterm

end Step

end Lower

end FieldSSA
