import FieldSSA.Proofs.HandleCalls
import FieldSSA.Proofs.LoweringContract

namespace FieldSSA

theorem countP_modify_of_eq_some {α : Type} {p : α → Bool} {f : α → α} {a : α} {as : List α}
    {i : Nat} (ha : as[i]? = some a) (hp : p a = true) (hf : p (f a) = false) :
    (as.modify i f).countP p + 1 = as.countP p := by
  induction as generalizing i with
  | nil => simp at ha
  | cons head rest ih =>
      cases i with
      | zero =>
          obtain rfl : head = a := by simpa using ha
          rw [List.modify_zero_cons, List.countP_cons_of_neg (by simp [hf]),
            List.countP_cons_of_pos hp]
      | succ i =>
          have hrest := ih (by simpa using ha)
          rw [List.modify_succ_cons, List.countP_cons, List.countP_cons]
          omega

theorem length_zip_of_eq {α β : Type} {xs : List α} {ys : List β} (h : ys.length = xs.length) :
    (xs.zip ys).length = xs.length := by
  rw [List.length_zip, h, Nat.min_self]

namespace Arena

/-- Live handles were taken, new ones were given, and slots were filled. -/
structure Traded (taken given filled : Nat) (a a' : Arena) : Prop where
  live : a'.live.length + taken = a.live.length + given
  slots : a'.slots = a.slots + filled

variable {a a' a'' : Arena} {taken taken' given given' filled filled' : Nat}

theorem Traded.refl (a : Arena) : Traded 0 0 0 a a :=
  ⟨rfl, rfl⟩

theorem Traded.trans (h : Traded taken given filled a a')
    (h' : Traded taken' given' filled' a' a'') :
    Traded (taken + taken') (given + given') (filled + filled') a a'' := by
  have hlive := h.live
  have hlive' := h'.live
  have hslots := h.slots
  have hslots' := h'.slots
  constructor <;> omega

theorem length_live (a : Arena) :
    a.live.length = a.entries.countP fun e => e.consumedAt.isNone := by
  have hentries : ((List.range a.entries.length).map Handle.mk).map a.entry? =
      a.entries.map some := by
    refine List.ext_getElem (by simp) fun i hi hi' => ?_
    have hlt : i < a.entries.length := by simpa using hi'
    simp [hlt, entry?]
  calc a.live.length
      = ((List.range a.entries.length).map Handle.mk).countP a.isLive :=
        List.countP_eq_length_filter.symm
    _ = (((List.range a.entries.length).map Handle.mk).map a.entry?).countP
          (Option.any fun e => e.consumedAt.isNone) := List.countP_map.symm
    _ = a.entries.countP fun e => e.consumedAt.isNone := by
        rw [hentries, List.countP_map]
        rfl

theorem traded_grown (a : Arena) {new : List HandleEntry} (filled : Nat)
    (hnew : ∀ e ∈ new, e.consumedAt = none) :
    Traded 0 new.length filled a (a.grown new filled) := by
  refine ⟨?_, rfl⟩
  have hcount : new.countP (fun e => e.consumedAt.isNone) = new.length :=
    List.countP_eq_length.mpr fun e he => by rw [hnew e he]; rfl
  rw [length_live, length_live, grown, List.countP_append, hcount, Nat.add_zero]

theorem traded_markConsumed {h : Handle} {ty : Ty} {e : HandleEntry} (opIndex : Nat)
    (hlive : a.checkLive h ty = .ok e) : Traded 1 0 0 a (a.markConsumed h opIndex) := by
  obtain ⟨hentry, hconsumed, -⟩ := checkLive_eq_ok_iff.mp hlive
  refine ⟨?_, rfl⟩
  rw [length_live, length_live, markConsumed]
  exact countP_modify_of_eq_some hentry (by rw [hconsumed]; rfl) rfl

end Arena

/-- The slots that the code of a recipe fills. -/
def Recipe.slots : Recipe → Nat
  | helper (.storeTemp _) => 1
  | _ => 0

theorem Recipe.slots_of_mem_builtin : ∀ p ∈ Recipe.builtin, p.2.slots = 0 := by
  decide

open Arena (Traded)

/-- A call that succeeds takes the handle that it is given and gives those that it returns. -/
theorem HandleCall.Did.traded {call : HandleCall} {w w' : Workspace} {handles : List Handle}
    (h : call.Did w (.ok handles) w') :
    Traded call.target?.toList.length handles.length call.slots w.arena w'.arena := by
  generalize hresult : Except.ok handles = result at h
  cases h with
  | bound hcall =>
      obtain rfl := Except.ok.inj hresult
      subst hcall
      exact Arena.traded_grown _ 0 (List.forall_mem_singleton.mpr rfl)
  | refused | burnt => cases hresult
  | @replaced h ty opIndex source b new htarget hlive _ hnew =>
      obtain rfl := Except.ok.inj hresult
      have htrade := (Arena.traded_markConsumed opIndex hlive).trans
        (Arena.traded_grown _ call.slots fun e he => (hnew e he).2)
      rw [htarget, Arena.next, List.length_map, List.length_range']
      rwa [Nat.zero_add, Nat.zero_add] at htrade

namespace Lower

variable {α β : Type} {c : LowerContext} {m : Lower α} {opIndex : Nat}
  {taken taken' given given' filled filled' : Nat}

/-- Whenever a step succeeds, it takes, gives and fills these numbers of handles and slots. -/
def Trades (c : LowerContext) (taken given filled : Nat) (m : Lower α) : Prop :=
  ∀ s a s', m.exec c s = .ok (a, s') →
    Traded taken given filled s.workspace.arena s'.workspace.arena

theorem Trades.of_ok {r : LowerState → α × LowerState} (h : ∀ s, m.exec c s = .ok (r s))
    (harena : ∀ s, (r s).2.workspace.arena = s.workspace.arena) : Trades c 0 0 0 m := by
  intro s a s' hrun
  obtain rfl : (r s).2 = s' := congrArg Prod.snd (Except.ok.inj ((h s).symm.trans hrun))
  rw [harena]
  exact .refl _

theorem Trades.of_error {e : LowerState → EmitError} (h : ∀ s, m.exec c s = .error (e s)) :
    Trades c taken given filled m := by
  intro s a s' hrun
  cases (h s).symm.trans hrun

theorem Trades.bind {k : α → Lower β} (hm : Trades c taken given filled m)
    (hk : ∀ s a s', m.exec c s = .ok (a, s') → Trades c taken' given' filled' (k a)) :
    Trades c (taken + taken') (given + given') (filled + filled') (m >>= k) := by
  intro s b s'' hrun
  rw [exec_bind] at hrun
  obtain ⟨⟨a, s'⟩, hfirst, hrest⟩ := bind_eq_ok_iff.mp hrun
  exact (hm s a s' hfirst).trans (hk s a s' hfirst s' b s'' hrest)

/-- A step that leaves the arena alone, and others after it. -/
theorem Trades.andThen {k : α → Lower β} (hm : Trades c 0 0 0 m)
    (hk : ∀ s a s', m.exec c s = .ok (a, s') → Trades c taken given filled (k a)) :
    Trades c taken given filled (m >>= k) := by
  have hboth := hm.bind hk
  rwa [Nat.zero_add, Nat.zero_add, Nat.zero_add] at hboth

/-- A step that only takes, and others after it. -/
theorem Trades.take {k : α → Lower β} (hm : Trades c taken 0 0 m)
    (hk : ∀ s a s', m.exec c s = .ok (a, s') → Trades c taken' given filled (k a)) :
    Trades c (taken + taken') given filled (m >>= k) := by
  have hboth := hm.bind hk
  rwa [Nat.zero_add, Nat.zero_add] at hboth

/-- A step that only takes, and others after it that only give. -/
theorem Trades.takeFirst {k : α → Lower β} (hm : Trades c taken 0 0 m)
    (hk : ∀ s a s', m.exec c s = .ok (a, s') → Trades c 0 given filled (k a)) :
    Trades c taken given filled (m >>= k) :=
  hm.take hk

theorem Trades.pure (a : α) : Trades c 0 0 0 (pure a : Lower α) :=
  .of_ok (fun _ => rfl) fun _ => rfl

theorem Trades.guard {p : Prop} [Decidable p] {defect : Defect} {k : β → Lower α}
    (h : ¬ p → Trades c taken given filled m) :
    Trades c taken given filled (if p then malformed opIndex defect >>= k else m) := by
  split
  · exact .of_error fun _ => rfl
  · exact h ‹_›

theorem Trades.get_bind {k : LowerState → Lower α} (hk : ∀ s, Trades c taken given filled (k s)) :
    Trades c taken given filled (get >>= k) :=
  Trades.andThen (.of_ok (fun _ => rfl) fun _ => rfl) fun _ s _ _ => hk s

theorem Trades.builder_bind {k : Builder → Lower α}
    (hk : ∀ b, Trades c taken given filled (k b)) :
    Trades c taken given filled (builder >>= k) :=
  Trades.andThen (.of_ok (fun _ => rfl) fun _ => rfl) fun _ b _ _ => hk b

theorem Trades.checkArity_bind {expected found : Nat} {k : Unit → Lower α}
    (hk : expected = found → Trades c taken given filled (k ())) :
    Trades c taken given filled (checkArity opIndex expected found >>= k) := by
  rw [checkArity]
  split
  · exact .of_error fun _ => rfl
  · exact hk (not_not.mp ‹_›)

theorem build_trades (steps : Build α) : Trades c 0 0 0 (build steps) := by
  intro s a s' hrun
  obtain ⟨b, -, rfl⟩ := exists_of_exec_build hrun
  exact .refl _

theorem working_trades (v : Var) {steps : Working α}
    (h : ∀ w a w', steps w = (.ok a, w') → Traded taken given filled w.arena w'.arena) :
    Trades c taken given filled (working opIndex v steps) := by
  intro s a s' hrun
  obtain ⟨w, hsteps, rfl⟩ := exists_of_exec_working hrun
  exact h s.workspace a w hsteps

/-- A step that is a call to the arena. -/
theorem working_call_trades (v : Var) {steps : Working α} (call : HandleCall)
    (handles : α → List Handle) (haction : call.action = handles <$> steps)
    (hgiven : ∀ a, (handles a).length = given) :
    Trades c call.target?.toList.length given call.slots (working opIndex v steps) := by
  refine working_trades v fun w a w' hsteps => ?_
  have hrun : call.action w = (.ok (handles a), w') := by
    rw [haction, map_eq_pure_bind, bind_apply_of_ok hsteps]
    rfl
  have hdid := call.did_action w
  rw [hrun] at hdid
  rw [← hgiven a]
  exact hdid.traded

theorem bind_trades (value : ValueId) (ty : Ty) (storage : Storage) :
    Trades c 0 1 0 (Lower.bind value ty storage) := by
  intro s a s' hrun
  rw [exec_bind_handle] at hrun
  obtain ⟨-, rfl⟩ := Prod.mk.inj (Except.ok.inj hrun)
  exact Arena.traded_grown _ 0 (List.forall_mem_singleton.mpr rfl)

theorem define_trades (v : Var) (h : Handle) : Trades c 0 0 0 (define opIndex v h) := by
  intro s a s' hrun
  rw [exec_define] at hrun
  split at hrun
  · cases hrun
  · obtain ⟨-, rfl⟩ := Prod.mk.inj (Except.ok.inj hrun)
    exact .refl _

theorem lookup_trades (v : Var) : Trades c 0 0 0 (lookup opIndex v) := by
  refine .get_bind fun s => ?_
  cases s.scope.lookup v with
  | none => exact .of_error fun _ => rfl
  | some h => exact .pure h

theorem target_trades (l : Label) : Trades c 0 0 0 (target opIndex l) := by
  refine .get_bind fun s => ?_
  cases s.labels.lookup l with
  | none => exact .of_error fun _ => rfl
  | some id => exact .pure id

theorem typeOf_trades (v : ValueId) : Trades c 0 0 0 (typeOf v) := by
  refine .builder_bind fun b => ?_
  cases b.valueType? v with
  | none => exact .of_error fun _ => rfl
  | some ty => exact .pure ty

theorem consume_trades (v : Var) (ty : Ty) : Trades c 1 0 0 (consume opIndex v ty) := by
  refine (lookup_trades v).andThen fun _ h _ _ => ?_
  have hcall : (HandleCall.consume h ty opIndex).action =
      (fun _ => []) <$> Working.consume h ty opIndex := rfl
  exact (working_call_trades v _ _ hcall fun _ => rfl).takeFirst fun _ e _ _ => .pure e.value

theorem requireMaterialized_trades (v : Var) (h : Handle) :
    Trades c 0 0 0 (working opIndex v (Working.requireMaterialized h)) := by
  refine working_trades v fun w a w' hrun => ?_
  have hstate : (Working.requireMaterialized h w).2 = w := by
    change ((liftM (w.arena.requireMaterialized h) : Working Unit) w).2 = w
    cases w.arena.requireMaterialized h <;> rfl
  obtain rfl : w' = w := by rwa [hrun] at hstate
  exact .refl _

theorem consumeStored_trades (v : Var) (ty : Ty) :
    Trades c 1 0 0 (consumeStored opIndex v ty) := by
  refine (consume_trades v ty).takeFirst fun _ x _ _ => ?_
  refine (lookup_trades v).andThen fun _ h _ _ => ?_
  exact (requireMaterialized_trades v h).andThen fun _ _ _ _ => .pure x

theorem mapM_trades {step : α → Lower β} (h : ∀ a, Trades c 1 0 0 (step a)) (xs : List α) :
    Trades c xs.length 0 0 (xs.mapM step) := by
  induction xs with
  | nil =>
      rw [List.mapM_nil]
      exact .pure []
  | cons x rest ih =>
      rw [List.mapM_cons, List.length_cons, Nat.add_comm]
      exact (h x).take fun _ y _ _ => ih.takeFirst fun _ ys _ _ => .pure (y :: ys)

theorem consumeAll_trades (args : List (Var × Ty)) :
    Trades c args.length 0 0 (consumeAll opIndex args) := by
  refine mapM_trades ?_ args
  rintro ⟨v, ty⟩
  exact consume_trades v ty

theorem consumeAllStored_trades (args : List (Var × Ty)) :
    Trades c args.length 0 0 (consumeAllStored opIndex args) := by
  refine mapM_trades ?_ args
  rintro ⟨v, ty⟩
  exact consumeStored_trades v ty

theorem edge_trades (dest : BlockId) (args : List Var) :
    Trades c args.length 0 0 (edge opIndex dest args) := by
  refine (build_trades _).andThen fun _ params _ _ => .checkArity_bind fun hlen => ?_
  rw [← length_zip_of_eq hlen]
  refine (mapM_trades ?_ _).takeFirst fun _ values _ _ => .pure _
  rintro ⟨v, param⟩
  exact (typeOf_trades param).andThen fun _ ty _ _ => consumeStored_trades v ty

theorem introduce_trades (v : Var) (value : ValueId) (ty : Ty) (storage : Storage) :
    Trades c 0 1 0 (Lower.bind value ty storage >>= define opIndex v) :=
  (bind_trades value ty storage).bind fun _ h _ _ => define_trades v h

theorem defineAll_trades (storage : Nat → Storage) (position : Nat)
    (defs : List ((Var × Ty) × ValueId)) :
    Trades c 0 defs.length 0 (defineAll opIndex storage position defs) := by
  induction defs generalizing position with
  | nil => exact .pure ()
  | cons p rest ih =>
      rw [List.length_cons, Nat.add_comm, defineAll, ← bind_assoc]
      exact (introduce_trades _ _ _ _).bind fun _ _ _ _ => ih (position + 1)

theorem defineParams_trades (position : Nat) (params : List (Var × ValueId)) :
    Trades c 0 params.length 0 (defineParams position params) := by
  induction params generalizing position with
  | nil => exact .pure ()
  | cons p rest ih =>
      rw [List.length_cons, Nat.add_comm, defineParams]
      refine (typeOf_trades p.2).andThen fun _ ty _ _ => ?_
      rw [← bind_assoc]
      exact (introduce_trades _ _ _ _).bind fun _ _ _ _ => ih (position + 1)

theorem bindEntry_trades (params : List Var) : Trades c 0 params.length 0 (bindEntry params) := by
  refine .builder_bind fun b => .checkArity_bind fun hlen => ?_
  rw [← length_zip_of_eq hlen]
  exact defineParams_trades 0 _

/-- A call of a built-in libfunc takes its arguments and gives its results: the routine gives a
value for each result. -/
theorem call_trades (hregistry : c.registry = .default) (libfunc : String)
    (args results : List Var) :
    Trades c args.length results.length 0 (call opIndex libfunc args results) := by
  refine Trades.andThen (.of_ok (fun _ => rfl) fun _ => rfl) fun s c' s' hread => ?_
  obtain rfl : c = c' := (Prod.mk.inj (Except.ok.inj hread)).1
  cases hget : c.registry.get? libfunc with
  | none => exact .of_error fun _ => rfl
  | some l =>
      refine .checkArity_bind fun hparams => .guard fun hresults => ?_
      have hresults := not_not.mp hresults
      have hargs := length_zip_of_eq hparams
      rw [← hargs]
      refine (consumeAll_trades _).takeFirst fun _ values _ hconsume => ?_
      have hvalues : values.length = l.params.length := by
        rw [(consumeAll_keeps hconsume).1, hargs, hparams]
      refine (build_trades _).andThen fun _ outputs _ hbuild => ?_
      obtain ⟨b, hlower, -⟩ := exists_of_exec_build hbuild
      have houtputs := Registry.keepsContract_default (hregistry ▸ hget) values _ _ _ hvalues hlower
      have htyped := length_zip_of_eq hresults
      rw [← htyped, ← length_zip_of_eq (houtputs.length_eq.trans (hresults.trans htyped.symm))]
      exact defineAll_trades _ _ _

/-- An operation that goes on in its block takes its arguments and gives its results. -/
theorem op_body_trades {o : Op} {r : Recipe} {args results : List Var}
    (hregistry : c.registry = .default) (hcall : o.asCall? = some (r, args, results)) :
    Trades c args.length results.length r.slots (op opIndex o) := by
  unfold op
  refine .builder_bind fun b => .guard fun _ => ?_
  cases o with
  | const dest value =>
      cases hcall
      exact (build_trades _).andThen fun _ v _ _ => introduce_trades dest v value.ty .implicit
  | dup ty src first second =>
      cases hcall
      refine (lookup_trades src).andThen fun _ h _ _ => ?_
      have haction : (HandleCall.duplicate h ty opIndex).action =
          (fun p => [p.1, p.2]) <$> Working.duplicate h ty opIndex := rfl
      have hmove : Trades c 1 2 0 (working opIndex src (Working.duplicate h ty opIndex)) :=
        working_call_trades src _ _ haction fun _ => rfl
      exact hmove.bind fun _ copies _ _ =>
        (define_trades first _).andThen fun _ _ _ _ => define_trades second _
  | storeTemp ty src dest =>
      cases hcall
      refine (lookup_trades src).andThen fun _ h _ _ => ?_
      have haction : (HandleCall.storeTemp h ty opIndex).action =
          (fun stored => [stored]) <$> Working.storeTemp h ty opIndex := rfl
      exact (working_call_trades src _ _ haction fun _ => rfl).bind fun _ stored _ _ =>
        define_trades dest stored
  | rename ty src dest =>
      cases hcall
      refine (lookup_trades src).andThen fun _ h _ _ => ?_
      have haction : (HandleCall.rename h ty opIndex).action =
          (fun renamed => [renamed]) <$> Working.rename h ty opIndex := rfl
      exact (working_call_trades src _ _ haction fun _ => rfl).bind fun _ renamed _ _ =>
        define_trades dest renamed
  | call libfunc args results =>
      obtain ⟨r', hr, heq⟩ := Option.map_eq_some_iff.mp hcall
      cases heq
      rw [Recipe.slots_of_mem_builtin _ (mem_of_lookup_eq_some hr)]
      exact call_trades hregistry libfunc args results
  | _ => cases hcall

/-- A terminator takes its operands. -/
theorem op_terminator_trades {src : Source} {labels : List (Label × BlockId)} {f : Function}
    {vals : Assignment} {o : Op} {t : Terminator} (hends : Ends src labels f vals o t) :
    Trades c t.operands.length 0 0 (op opIndex o) := by
  unfold op
  refine .builder_bind fun b => .guard fun _ => ?_
  cases hends with
  | branch h =>
      rw [Terminator.operands, ← h.args.length_eq]
      refine (target_trades _).andThen fun _ dest _ _ => ?_
      exact (edge_trades dest _).takeFirst fun _ _ _ _ => build_trades _
  | condBranch _ _ h h' =>
      rw [Terminator.operands, List.cons_append, List.length_cons, List.length_append,
        ← h.args.length_eq, ← h'.args.length_eq, Nat.add_comm]
      refine (consume_trades _ _).take fun _ v _ _ => ?_
      refine (target_trades _).andThen fun _ dest _ _ => ?_
      refine (target_trades _).andThen fun _ dest' _ _ => ?_
      refine (edge_trades dest _).take fun _ e _ _ => ?_
      exact (edge_trades dest' _).takeFirst fun _ _ _ _ => build_trades _
  | @ret args xs hargs _ =>
      refine .builder_bind fun b => .checkArity_bind fun hlen => ?_
      rw [Terminator.operands, ← hargs.length_eq, ← length_zip_of_eq hlen]
      exact (consumeAllStored_trades _).takeFirst fun _ _ _ _ => build_trades _

end Lower

end FieldSSA
