import FieldSSA.Proofs.LowerScope

namespace FieldSSA

namespace LowerState

/-- Variables were read, and nothing else has changed. -/
structure Spent (g : Ledger) (vars : List Var) (s s' : LowerState) : Prop where
  builder : s'.workspace.builder = s.workspace.builder
  labels : s'.labels = s.labels
  values : s'.value? = s.value?
  tracks : Tracks (g.use vars) s'

/-- Variables came into scope with values, and nothing else has changed. -/
structure Brought (g : Ledger) (defs : List (Var × Ty)) (values : List ValueId) (stored : Bool)
    (s s' : LowerState) : Prop where
  builder : s'.workspace.builder = s.workspace.builder
  labels : s'.labels = s.labels
  values : s'.value? = Assignment.set s.value? (defs.map Prod.fst) values
  tracks : Tracks (g.define defs stored) s'

variable {g : Ledger} {s s' s'' : LowerState} {vars vars' : List Var}

theorem Spent.refl (ht : Tracks g s) : Spent g [] s s :=
  ⟨rfl, rfl, rfl, by simpa [Ledger.use] using ht⟩

theorem Spent.trans (h : Spent g vars s s') (h' : Spent (g.use vars) vars' s' s'') :
    Spent g (vars ++ vars') s s'' := by
  refine ⟨h'.builder.trans h.builder, h'.labels.trans h.labels, h'.values.trans h.values, ?_⟩
  rw [← Ledger.use_use]
  exact h'.tracks

theorem value?_introduced (hs : s.Scoped) (v : Var) (e : HandleEntry) :
    (s.introduced v e).value? = Assignment.set s.value? [v] [e.value] := by
  funext w
  rw [Assignment.set_singleton, value?, env_introduced hs]
  by_cases h : w = v <;> simp [h, value?]

theorem Tracks.hasTypes {args : List Var} {types : List Ty} {xs : List ValueId}
    (ht : Tracks g s) (hlen : types.length = args.length) (hdef : args.zip types ⊆ g.defined)
    (hxs : List.Forall₂ (fun p x => s.value? p.1 = some x) (args.zip types) xs) :
    List.Forall₂ (fun v x => s.value? v = some x) args xs ∧
      s.workspace.builder.draft.HasTypes xs types := by
  induction args generalizing types xs with
  | nil =>
      obtain rfl := List.eq_nil_of_length_eq_zero hlen
      obtain rfl := List.forall₂_nil_left_iff.mp hxs
      exact ⟨.nil, .nil⟩
  | cons v args ih =>
      cases types with
      | nil => simp at hlen
      | cons ty types =>
          rw [List.zip_cons_cons] at hdef hxs
          obtain ⟨hv, hrest⟩ := List.cons_subset.mp hdef
          cases hxs with
          | cons hx hxs =>
              obtain ⟨hvalues, htypes⟩ := ih (by simpa using hlen) hrest hxs
              exact ⟨.cons hx hvalues, .cons (ht.value? hv hx) htypes⟩

end LowerState

open LowerState

namespace Working

variable {w : Workspace} {h : Handle} {ty : Ty} {e : HandleEntry}

theorem consume_of_checkLive (opIndex : Nat) (hlive : w.arena.checkLive h ty = .ok e) :
    consume h ty opIndex w = (.ok { e with consumedAt := some opIndex },
      { w with arena := w.arena.markConsumed h opIndex }) := by
  change ExceptT.bind (liftM (w.arena.checkLive h ty) : Working HandleEntry) _ w = _
  rw [hlive]
  rfl

theorem consume_of_checkLive_error {err : ArenaError} (opIndex : Nat)
    (hlive : w.arena.checkLive h ty = .error err) :
    consume h ty opIndex w = (.error err, w) := by
  change ExceptT.bind (liftM (w.arena.checkLive h ty) : Working HandleEntry) _ w = _
  rw [hlive]
  rfl

end Working

namespace Lower

variable {g : Ledger} {s : LowerState} {c : LowerContext} {opIndex : Nat} {v : Var} {ty : Ty}

theorem checkArity_decides (opIndex expected found : Nat) :
    Decides ((checkArity opIndex expected found).exec c s) (expected = found)
      fun _ s' => s = s' := by
  by_cases h : expected = found
  · rw [checkArity, if_neg (not_not.mpr h)]
    exact .ok h rfl
  · rw [checkArity, if_pos h]
    exact .error trivial h

theorem exec_lookup (v : Var) : (lookup opIndex v).exec c s =
    match s.scope.lookup v with
    | some h => .ok (h, s)
    | none => .error (.malformed c.function opIndex (.undefinedVar v)) := by
  cases h : s.scope.lookup v <;> simp [lookup, h]

/-- The handle of a variable that the ledger offers is live; otherwise the variable is
undefined or its handle is refused. -/
theorem checkLive_cases (c : LowerContext) (opIndex : Nat) (ht : Tracks g s) (v : Var) (ty : Ty) :
    (g.Offers [(v, ty)] ∧ ∃ h e, s.scope.lookup v = some h ∧ s.env v = some e ∧
        s.workspace.arena.checkLive h ty = .ok e) ∨
      (¬ g.Offers [(v, ty)] ∧ (s.scope.lookup v = none ∨ ∃ h err, s.scope.lookup v = some h ∧
        s.workspace.arena.checkLive h ty = .error err ∧
        (arenaError c.function opIndex v err).IsDefect)) := by
  rw [Ledger.offers_singleton_iff, ht.defined, ht.used]
  cases hv : s.scope.lookup v with
  | none =>
      have hnone := (env_eq_none_iff ht.isScoped).mpr hv
      exact .inr ⟨by simp [hnone], .inl rfl⟩
  | some h =>
      obtain ⟨e, he⟩ : ∃ e, s.env v = some e := by
        refine Option.ne_none_iff_exists'.mp fun hnone => ?_
        rw [env_eq_none_iff ht.isScoped, hv] at hnone
        simp at hnone
      have hentry : s.workspace.arena.entries[h.index]? = some e := by simpa [env, hv] using he
      cases hc : e.consumedAt with
      | some consumedAt =>
          have hcheck : s.workspace.arena.checkLive h ty = .error (.consumed h consumedAt) := by
            simp [Arena.checkLive, Arena.entry?, hentry, hc]
          exact .inr ⟨by simp [he, hc], .inr ⟨h, .consumed h consumedAt, rfl, hcheck, trivial⟩⟩
      | none =>
          by_cases hty : e.ty = ty
          · have hcheck : s.workspace.arena.checkLive h ty = .ok e := by
              simp [Arena.checkLive, Arena.entry?, hentry, hc, hty]
            exact .inl ⟨by simp [he, hc, hty], h, e, rfl, he, hcheck⟩
          · have hcheck : s.workspace.arena.checkLive h ty = .error (.typeMismatch h ty e.ty) := by
              simp [Arena.checkLive, Arena.entry?, hentry, hc, hty]
            exact .inr ⟨by simp [he, hty], .inr ⟨h, .typeMismatch h ty e.ty, rfl, hcheck, trivial⟩⟩

theorem consume_decides (ht : Tracks g s) :
    Decides ((consume opIndex v ty).exec c s) (g.Offers [(v, ty)])
      fun x s' => s.value? v = some x ∧ Spent g [v] s s' := by
  rw [consume, exec_bind, exec_lookup]
  rcases checkLive_cases c opIndex ht v ty with
    ⟨hoffers, h, e, hv, he, hlive⟩ | ⟨hnot, hv | ⟨h, err, hv, hlive, hdefect⟩⟩
  · have hconsume := Working.consume_of_checkLive opIndex hlive
    rw [hv, ok_bind, exec_bind, exec_working _ _ hconsume, ok_bind, exec_pure]
    refine .ok hoffers ⟨?_, rfl, rfl, ?_, ?_⟩
    · simp [value?, he]
    · exact value?_consumed ht.isScoped hv
    · exact ht.consumed hv
  · rw [hv]
    exact .error trivial hnot
  · have hconsume := Working.consume_of_checkLive_error opIndex hlive
    rw [hv, ok_bind, exec_bind, exec_working_error _ _ hconsume]
    exact .error hdefect hnot

theorem consumeStored_decides (ht : Tracks g s) :
    Decides ((consumeStored opIndex v ty).exec c s) (g.Offers [(v, ty)] ∧ v ∈ g.stored)
      fun x s' => s.value? v = some x ∧ Spent g [v] s s' := by
  rw [consumeStored, exec_bind]
  refine (consume_decides ht).bind fun x s' hoffers hq => ?_
  obtain ⟨hx, hspent⟩ := hq
  obtain ⟨e, he⟩ : ∃ e, s'.env v = some e := by
    have hvalue : s'.value? v = some x := by rw [hspent.values, hx]
    obtain ⟨e, he, -⟩ := Option.map_eq_some_iff.mp hvalue
    exact ⟨e, he⟩
  obtain ⟨h, hv, hentry⟩ := Option.bind_eq_some_iff.mp he
  have hstored : v ∈ g.stored ↔ e.storage.isMaterialized = true := by
    have hmem := hspent.tracks.stored v
    simpa [he, Ledger.use] using hmem
  rw [exec_bind, exec_lookup, hv, ok_bind, exec_bind]
  by_cases hm : e.storage.isMaterialized = true
  · have hrequire : Working.requireMaterialized h s'.workspace = (.ok (), s'.workspace) := by
      change (liftM (s'.workspace.arena.requireMaterialized h) : Working Unit) s'.workspace = _
      simp only [Arena.requireMaterialized, Arena.entry?, hentry, hm]
      rfl
    rw [exec_working _ _ hrequire, ok_bind, exec_pure]
    exact .ok (hstored.mpr hm) ⟨hx, hspent⟩
  · have hrequire : Working.requireMaterialized h s'.workspace =
        (.error (.notMaterialized h), s'.workspace) := by
      change (liftM (s'.workspace.arena.requireMaterialized h) : Working Unit) s'.workspace = _
      simp only [Arena.requireMaterialized, Arena.entry?, hentry, hm]
      rfl
    rw [exec_working_error _ _ hrequire]
    exact .error trivial (by simp [hstored, hm])

/-- Variables that are read one after the other, each by a step that leaves the builder
alone. `P` is what is asked of a variable besides that the ledger offers it. -/
theorem mapM_decides {α : Type} (step : α → Lower ValueId) (read : α → Var × Ty)
    (P : Var → Prop) (xs : List α) {b : Builder}
    (hstep : ∀ (g' : Ledger) (s' : LowerState) (x : α), x ∈ xs → g'.stored = g.stored →
      s'.workspace.builder = b → Tracks g' s' →
      Decides ((step x).exec c s') (g'.Offers [read x] ∧ P (read x).1)
        fun y s'' => s'.value? (read x).1 = some y ∧ Spent g' [(read x).1] s' s'')
    (hb : s.workspace.builder = b) (ht : Tracks g s) :
    Decides ((xs.mapM step).exec c s) (g.Offers (xs.map read) ∧ ∀ x ∈ xs, P (read x).1)
      fun ys s' => List.Forall₂ (fun x y => s.value? (read x).1 = some y) xs ys ∧
        Spent g (xs.map fun x => (read x).1) s s' := by
  induction xs generalizing g s with
  | nil =>
      rw [List.mapM_nil, exec_pure]
      exact .ok ⟨g.offers_nil, by simp⟩ ⟨.nil, .refl ht⟩
  | cons x rest ih =>
      rw [List.mapM_cons, exec_bind]
      have hcond : ((g.Offers [read x] ∧ P (read x).1) ∧
          (g.use [(read x).1]).Offers (rest.map read) ∧ ∀ z ∈ rest, P (read z).1) ↔
          g.Offers ((x :: rest).map read) ∧ ∀ z ∈ x :: rest, P (read z).1 := by
        rw [List.map_cons, Ledger.offers_cons_iff (read x) (rest.map read), List.forall_mem_cons]
        tauto
      refine Decides.congr (Decides.bind (hstep g s x (by simp) rfl hb ht) ?_) hcond
      rintro y s' - ⟨hy, hspent⟩
      have hrest := ih (g := g.use [(read x).1]) (s := s')
        (fun g' s'' z hz hg' => hstep g' s'' z (List.mem_cons_of_mem _ hz) hg')
        (hspent.builder.trans hb) hspent.tracks
      rw [exec_bind]
      refine hrest.andThen fun ys s'' _ hq => ?_
      obtain ⟨hys, hspent'⟩ := hq
      rw [hspent.values] at hys
      exact ⟨y :: ys, s'', rfl, .cons hy hys, hspent.trans hspent'⟩

theorem consumeAll_decides {args : List (Var × Ty)} (ht : Tracks g s) :
    Decides ((consumeAll opIndex args).exec c s) (g.Offers args)
      fun xs s' => List.Forall₂ (fun p x => s.value? p.1 = some x) args xs ∧
        Spent g (args.map Prod.fst) s s' := by
  have hall := mapM_decides (c := c) (fun p => consume opIndex p.1 p.2) id
    (fun _ => True) args (fun g' s' p _ _ _ ht' => (consume_decides ht').congr (by simp)) rfl ht
  rw [List.map_id] at hall
  exact hall.congr (by simp)

theorem consumeAllStored_decides {args : List (Var × Ty)} (ht : Tracks g s) :
    Decides ((consumeAllStored opIndex args).exec c s)
      (g.Offers args ∧ ∀ p ∈ args, p.1 ∈ g.stored)
      fun xs s' => List.Forall₂ (fun p x => s.value? p.1 = some x) args xs ∧
        Spent g (args.map Prod.fst) s s' := by
  have hall := mapM_decides (c := c) (fun p => consumeStored opIndex p.1 p.2) id
    (· ∈ g.stored) args (fun g' s' p _ hg' _ ht' => hg' ▸ consumeStored_decides ht') rfl ht
  rw [List.map_id] at hall
  exact hall

theorem introduce_decides {value : ValueId} {storage : Storage} (ht : Tracks g s) :
    Decides ((Lower.bind value ty storage >>= define opIndex v).exec c s)
      (v ∉ g.defined.map Prod.fst)
      fun _ s' => s' = s.introduced v ⟨value, ty, storage, none⟩ := by
  rw [exec_bind, exec_bind_handle, ok_bind, define, exec_bind, exec_get, ok_bind,
    ht.mem_defined_iff, ← Option.ne_none_iff_exists', not_not, env_eq_none_iff ht.isScoped]
  cases hv : s.scope.lookup v with
  | some h =>
      simp only [Option.isSome_some, if_true, exec_malformed]
      exact .error trivial (by simp)
  | none =>
      simp only [Option.isSome_none, Bool.false_eq_true, if_false, exec_set]
      exact .ok trivial rfl

theorem defineAll_decides {storage : Nat → Storage} {stored : Bool} {position : Nat}
    {defs : List (Var × Ty)} {values : List ValueId} {b : Builder}
    (hstored : ∀ i, (storage i).isMaterialized = stored)
    (htyped : List.Forall₂ (fun p x => b.draft.HasType x p.2) defs values)
    (hb : s.workspace.builder = b) (ht : Tracks g s) :
    Decides ((defineAll opIndex storage position (defs.zip values)).exec c s) (g.Lacks defs)
      fun _ s' => Brought g defs values stored s s' := by
  induction htyped generalizing g s position with
  | nil =>
      refine .ok g.lacks_nil ⟨rfl, rfl, (Assignment.set_nil _).symm, ?_⟩
      cases stored <;> simpa [Ledger.define] using ht
  | @cons p x defs values hx hrest ih =>
      obtain ⟨v, ty⟩ := p
      rw [List.zip_cons_cons, defineAll, ← bind_assoc, exec_bind]
      refine ((introduce_decides ht).bind ?_).congr (Ledger.lacks_cons_iff stored).symm
      rintro - s' hv rfl
      have hnext := ht.introduced (e := ⟨x, ty, storage position, none⟩) hv rfl (hb ▸ hx)
      have hledger : Ledger.mk (g.defined ++ [(v, ty)]) g.used
          (g.stored ++ if (storage position).isMaterialized then [v] else []) =
          g.define [(v, ty)] stored := by
        rw [hstored, Ledger.define]
        rfl
      rw [hledger] at hnext
      refine (ih (s := s.introduced v _) hb hnext).mono fun _ s'' hlacks hbrought => ?_
      have hnew : v ∉ defs.map Prod.fst := fun hmem => hlacks.fresh (by simp [Ledger.define]) hmem
      refine ⟨hbrought.builder, hbrought.labels, ?_, ?_⟩
      · rw [hbrought.values, value?_introduced ht.isScoped, List.map_cons,
          Assignment.set_set_of_notMem _ hnew]
      · rw [← Ledger.define_singleton_define]
        exact hbrought.tracks

end Lower

end FieldSSA
