import FieldSSA.Proofs.LowerOps

namespace FieldSSA

open LowerState

namespace LowerState

/-- The labels of a source are those in scope, with blocks of their types. -/
structure Declared (src : Source) (s : LowerState) : Prop where
  placed : ∀ l types, src.labelTypes? l = some types → ∃ id blk, s.labels.lookup l = some id ∧
    s.workspace.builder.block? id = some blk ∧
    s.workspace.builder.draft.HasTypes blk.params types
  missing : ∀ l, src.labelTypes? l = none → s.labels.lookup l = none
  returns : s.workspace.builder.signature.returns = src.returns

/-- A terminator was lowered, which closes its block. -/
def Ended (src : Source) (o : Op) (id : BlockId) (s s' : LowerState) : Prop :=
  ∃ t, s'.workspace.builder = s.workspace.builder.close id t ∧ s'.labels = s.labels ∧
    Ends src s.labels s.workspace.builder.draft s.value? o t

theorem Declared.spent {src : Source} {g : Ledger} {vars : List Var} {s s' : LowerState}
    (hd : Declared src s) (h : Spent g vars s s') : Declared src s' := by
  constructor
  · rw [h.builder, h.labels]
    exact hd.placed
  · rw [h.labels]
    exact hd.missing
  · rw [h.builder]
    exact hd.returns

end LowerState

namespace Lower

variable {src : Source} {g : Ledger} {s : LowerState} {c : LowerContext} {opIndex : Nat}
  {id : BlockId} {blk : OpenBlock}

theorem target_decides {l : Label} (hd : Declared src s) :
    Decides ((target opIndex l).exec c s) (∃ types, src.labelTypes? l = some types)
      fun id s' => s = s' ∧ ∃ blk, s.labels.lookup l = some id ∧
        s.workspace.builder.block? id = some blk ∧
        s.workspace.builder.draft.HasTypes blk.params ((src.labelTypes? l).getD []) := by
  rw [target, exec_bind, exec_get, ok_bind]
  cases htypes : src.labelTypes? l with
  | none =>
      rw [hd.missing l htypes]
      exact .error trivial (by simp)
  | some types =>
      obtain ⟨id, blk, hlookup, hblk, hparams⟩ := hd.placed l types htypes
      rw [hlookup]
      exact .ok ⟨types, rfl⟩ ⟨rfl, blk, rfl, hblk, hparams⟩

theorem exists_hasType_of_mem {f : Function} {vs : List ValueId} {types : List Ty} {v : ValueId}
    (h : f.HasTypes vs types) (hv : v ∈ vs) : ∃ ty, f.HasType v ty := by
  induction h with
  | nil => simp at hv
  | cons hw _ ih =>
      rcases List.mem_cons.mp hv with rfl | hv
      · exact ⟨_, hw⟩
      · exact ih hv

/-- A variable that is read for a parameter, with the type of the parameter. -/
def readFor (b : Builder) (p : Var × ValueId) : Var × Ty :=
  (p.1, (b.valueType? p.2).getD .bool)

theorem map_readFor {b : Builder} {args : List Var} {params : List ValueId} {types : List Ty}
    (h : b.draft.HasTypes params types) : (args.zip params).map (readFor b) = args.zip types := by
  have hmap : params.map (fun v => (b.valueType? v).getD .bool) = types := by
    induction h with
    | nil => rfl
    | @cons v ty _ _ hv _ ih =>
        have hv : b.valueType? v = some ty := hv
        rw [List.map_cons, ih, hv]
        rfl
  rw [← hmap, List.zip_map_right]
  rfl

theorem forall_mem_zip_iff {args : List Var} {types : List Ty} {stored : List Var}
    (hlen : types.length = args.length) :
    (∀ p ∈ args.zip types, p.1 ∈ stored) ↔ args ⊆ stored := by
  have hfst : (args.zip types).map Prod.fst = args := List.map_fst_zip (Nat.le_of_eq hlen.symm)
  constructor
  · intro h v hv
    rw [← hfst, List.mem_map] at hv
    obtain ⟨p, hp, rfl⟩ := hv
    exact h p hp
  · intro h p hp
    exact h (List.of_mem_zip hp).1

theorem typeOf_eq {v : ValueId} {ty : Ty} (h : s.workspace.builder.draft.HasType v ty) :
    (typeOf v).exec c s = .ok (ty, s) := by
  have hv : s.workspace.builder.valueType? v = some ty := h
  rw [typeOf, exec_bind, exec_builder, ok_bind]
  simp only [hv, exec_pure]

theorem mapM_consumeStored_decides {args : List Var} {params : List ValueId} {types : List Ty}
    (hlen : types.length = args.length)
    (hparams : s.workspace.builder.draft.HasTypes params types) (ht : Tracks g s) :
    Decides (((args.zip params).mapM fun p : Var × ValueId => do
      consumeStored opIndex p.1 (← typeOf p.2)).exec c s)
      (g.Offers (args.zip types) ∧ args ⊆ g.stored)
      fun xs s' => List.Forall₂ (fun p x => s.value? p.1 = some x) (args.zip types) xs ∧
        Spent g args s s' := by
  have hreads : (args.zip params).map (readFor s.workspace.builder) = args.zip types :=
    map_readFor hparams
  have hfst : (args.zip params).map (fun p => (readFor s.workspace.builder p).1) = args :=
    List.map_fst_zip (Nat.le_of_eq (hlen.symm.trans hparams.length_eq.symm))
  have hall := mapM_decides (c := c) (b := s.workspace.builder)
    (fun p : Var × ValueId => do consumeStored opIndex p.1 (← typeOf p.2))
    (readFor s.workspace.builder) (· ∈ g.stored) (args.zip params) ?_ rfl ht
  · rw [hreads, hfst] at hall
    refine (hall.congr (and_congr_right fun _ => ?_)).mono fun xs s' _ hq => ⟨?_, hq.2⟩
    · rw [← forall_mem_zip_iff hlen, ← hreads, List.forall_mem_map]
    · rw [← hreads, List.forall₂_map_left_iff]
      exact hq.1
  · rintro g' s' ⟨v, param⟩ hp hg' hb ht'
    obtain ⟨ty, hty⟩ := exists_hasType_of_mem hparams (List.of_mem_zip hp).2
    have hread : readFor s.workspace.builder (v, param) = (v, ty) := by
      have hty : s.workspace.builder.valueType? param = some ty := hty
      simp [readFor, hty]
    rw [exec_bind, typeOf_eq (hb ▸ hty), ok_bind, hread, ← hg']
    exact consumeStored_decides ht'

theorem edge_decides {dest : BlockId} {target : OpenBlock} {args : List Var} {types : List Ty}
    (hdest : s.workspace.builder.block? dest = some target)
    (hparams : s.workspace.builder.draft.HasTypes target.params types) (ht : Tracks g s) :
    Decides ((edge opIndex dest args).exec c s)
      (types.length = args.length ∧ g.Offers (args.zip types) ∧ args ⊆ g.stored)
      fun e s' => e.dest = dest ∧ List.Forall₂ (fun v x => s.value? v = some x) args e.args ∧
        s.workspace.builder.draft.HasTypes e.args types ∧ Spent g args s s' := by
  rw [edge, exec_bind, exec_build _ _ (Build.blockParams_of_block? hdest), ok_bind, built_self,
    exec_bind, ← hparams.length_eq]
  refine (checkArity_decides _ _ _).bind ?_
  rintro - s' hlen rfl
  rw [hparams.length_eq] at hlen
  rw [exec_bind]
  refine (mapM_consumeStored_decides hlen hparams ht).andThen fun xs s' hcond hq => ?_
  obtain ⟨hvalues, htypes⟩ := ht.hasTypes hlen hcond.1.defined hq.1
  exact ⟨⟨dest, xs⟩, s', rfl, rfl, hvalues, htypes, hq.2⟩

theorem edgeFits_iff {l : Label} {args : List Var} :
    src.EdgeFits l args ↔ (∃ types, src.labelTypes? l = some types) ∧
      ((src.labelTypes? l).getD []).length = args.length := by
  unfold Source.EdgeFits
  cases src.labelTypes? l <;> simp

theorem op_branch_decides {l : Label} {args : List Var} (hd : Declared src s)
    (hopen : s.workspace.builder.OpenAt id blk) (ht : Tracks g s) :
    Decides ((op opIndex (.branch l args)).exec c s) (g.Admits src (.branch l args))
      fun _ s' => Ended src (.branch l args) id s s' := by
  rw [op, exec_if_open rfl hopen.current, exec_bind]
  have hadmits : ((∃ types, src.labelTypes? l = some types) ∧
      ((src.labelTypes? l).getD []).length = args.length ∧
        g.Offers (args.zip ((src.labelTypes? l).getD [])) ∧ args ⊆ g.stored) ↔
      g.Admits src (.branch l args) := by
    constructor
    · rintro ⟨hplaced, hlen, hoffers, hstored⟩
      exact ⟨edgeFits_iff.mpr ⟨hplaced, hlen⟩, hoffers, g.lacks_nil, hstored⟩
    · intro h
      obtain ⟨hplaced, hlen⟩ := edgeFits_iff.mp h.fits
      exact ⟨hplaced, hlen, h.reads, h.leaving⟩
  refine ((target_decides hd).bind ?_).congr hadmits
  rintro dest s' ⟨types, htypes⟩ ⟨rfl, target, hlookup, hdest, hparams⟩
  rw [exec_bind]
  refine (edge_decides hdest hparams ht).andThen ?_
  rintro e s' - ⟨rfl, hargs, hargTypes, hspent⟩
  have hbr : Build.br e s'.workspace.builder = (.ok (), s.workspace.builder.close id (.br e)) := by
    rw [hspent.builder]
    exact Build.br_of_openAt hopen hdest
  refine ⟨(), _, exec_build _ _ hbr, .br e, rfl, hspent.labels, .branch ⟨hlookup, hargs, ?_⟩⟩
  rw [htypes] at hargTypes
  exact ⟨types, htypes, hargTypes⟩

theorem op_ret_decides {args : List Var} (hd : Declared src s)
    (hopen : s.workspace.builder.OpenAt id blk) (ht : Tracks g s) :
    Decides ((op opIndex (.ret args)).exec c s) (g.Admits src (.ret args))
      fun _ s' => Ended src (.ret args) id s s' := by
  rw [op, exec_if_open rfl hopen.current, exec_bind, exec_builder, ok_bind, hd.returns, exec_bind]
  have hadmits : (src.returns.length = args.length ∧ g.Offers (args.zip src.returns) ∧
      args ⊆ g.stored) ↔ g.Admits src (.ret args) := by
    constructor
    · rintro ⟨hlen, hoffers, hstored⟩
      exact ⟨hlen, hoffers, g.lacks_nil, hstored⟩
    · intro h
      exact ⟨h.fits, h.reads, h.leaving⟩
  refine ((checkArity_decides _ _ _).bind ?_).congr hadmits
  rintro - s' hlen rfl
  rw [exec_bind]
  refine Decides.andThen ((consumeAllStored_decides ht).congr
    (and_congr_right fun _ => forall_mem_zip_iff hlen)) ?_
  rintro xs s' hcond ⟨hxs, hspent⟩
  obtain ⟨hvalues, htypes⟩ := ht.hasTypes hlen hcond.1.defined hxs
  have hret : Build.ret xs s'.workspace.builder =
      (.ok (), s.workspace.builder.close id (.ret xs)) := by
    rw [hspent.builder]
    exact Build.ret_of_openAt hopen xs
  exact ⟨(), _, exec_build _ _ hret, .ret xs, rfl, hspent.labels, .ret hvalues htypes⟩

theorem admits_condBranch_iff {cond : Var} {l l' : Label} {args args' : List Var} :
    g.Admits src (.condBranch cond l args l' args') ↔
      g.Offers [(cond, .bool)] ∧ (∃ types, src.labelTypes? l = some types) ∧
        (∃ types, src.labelTypes? l' = some types) ∧
        (((src.labelTypes? l).getD []).length = args.length ∧
          (g.use [cond]).Offers (args.zip ((src.labelTypes? l).getD [])) ∧ args ⊆ g.stored) ∧
        ((src.labelTypes? l').getD []).length = args'.length ∧
          ((g.use [cond]).use args).Offers (args'.zip ((src.labelTypes? l').getD [])) ∧
          args' ⊆ g.stored := by
  have hreads (hlen : ((src.labelTypes? l).getD []).length = args.length) :
      g.Offers (src.reads (.condBranch cond l args l' args')) ↔ g.Offers [(cond, .bool)] ∧
        (g.use [cond]).Offers (args.zip ((src.labelTypes? l).getD [])) ∧
        ((g.use [cond]).use args).Offers (args'.zip ((src.labelTypes? l').getD [])) := by
    rw [Source.reads, Ledger.offers_cons_iff, Ledger.offers_append_iff,
      List.map_fst_zip (Nat.le_of_eq hlen.symm)]
  constructor
  · intro h
    obtain ⟨⟨hplaced, hlen⟩, hplaced', hlen'⟩ :=
      And.intro (edgeFits_iff.mp h.fits.1) (edgeFits_iff.mp h.fits.2)
    obtain ⟨hcond, hargs, hargs'⟩ := (hreads hlen).mp h.reads
    obtain ⟨hstored, hstored'⟩ := List.append_subset.mp h.leaving
    exact ⟨hcond, hplaced, hplaced', ⟨hlen, hargs, hstored⟩, hlen', hargs', hstored'⟩
  · rintro ⟨hcond, hplaced, hplaced', ⟨hlen, hargs, hstored⟩, hlen', hargs', hstored'⟩
    exact ⟨⟨edgeFits_iff.mpr ⟨hplaced, hlen⟩, edgeFits_iff.mpr ⟨hplaced', hlen'⟩⟩,
      (hreads hlen).mpr ⟨hcond, hargs, hargs'⟩, g.lacks_nil,
      List.append_subset.mpr ⟨hstored, hstored'⟩⟩

theorem op_condBranch_decides {cond : Var} {l l' : Label} {args args' : List Var}
    (hd : Declared src s) (hopen : s.workspace.builder.OpenAt id blk) (ht : Tracks g s) :
    Decides ((op opIndex (.condBranch cond l args l' args')).exec c s)
      (g.Admits src (.condBranch cond l args l' args'))
      fun _ s' => Ended src (.condBranch cond l args l' args') id s s' := by
  rw [op, exec_if_open rfl hopen.current, exec_bind, admits_condBranch_iff]
  refine (consume_decides ht).bind ?_
  rintro x s₁ hoffers ⟨hx, hspent⟩
  rw [exec_bind]
  refine (target_decides (hd.spent hspent)).bind ?_
  rintro dest s' ⟨types, htypes⟩ ⟨rfl, target, hlookup, hdest, hparams⟩
  rw [exec_bind]
  refine (target_decides (hd.spent hspent)).bind ?_
  rintro dest' s' ⟨types', htypes'⟩ ⟨rfl, target', hlookup', hdest', hparams'⟩
  rw [exec_bind]
  refine (edge_decides hdest hparams hspent.tracks).bind ?_
  rintro e s₂ - ⟨rfl, hargs, hargTypes, hspent₂⟩
  rw [exec_bind]
  rw [← hspent₂.builder] at hdest' hparams'
  refine (edge_decides hdest' hparams' hspent₂.tracks).andThen ?_
  rintro e' s₃ - ⟨rfl, hargs', hargTypes', hspent₃⟩
  have hbuilder := hspent₃.builder.trans (hspent₂.builder.trans hspent.builder)
  rw [hspent.builder] at hdest hargTypes
  rw [hspent₂.builder, hspent.builder] at hdest' hargTypes'
  have hbr : Build.condBr x e e' s₃.workspace.builder =
      (.ok (), s.workspace.builder.close id (.condBr x e e')) := by
    rw [hbuilder]
    exact Build.condBr_of_openAt hopen x hdest hdest'
  rw [hspent.labels] at hlookup hlookup'
  rw [hspent.values] at hargs
  rw [hspent₂.values, hspent.values] at hargs'
  rw [htypes] at hargTypes
  rw [htypes'] at hargTypes'
  have hbool := ht.value? (Ledger.offers_singleton_iff.mp hoffers).1 hx
  refine ⟨(), _, exec_build _ _ hbr, .condBr x e e', rfl, ?_, .condBranch hx hbool
    ⟨hlookup, hargs, types, htypes, hargTypes⟩ ⟨hlookup', hargs', types', htypes', hargTypes'⟩⟩
  exact hspent₃.labels.trans (hspent₂.labels.trans hspent.labels)

/-- A terminator is lowered exactly if the ledger admits it. -/
theorem op_terminator_decides {o : Op} (hterm : o.isTerminator = true) (hd : Declared src s)
    (hopen : s.workspace.builder.OpenAt id blk) (ht : Tracks g s) :
    Decides ((op opIndex o).exec c s) (g.Admits src o) fun _ s' => Ended src o id s s' := by
  cases o with
  | branch l args => exact op_branch_decides hd hopen ht
  | condBranch cond l args l' args' => exact op_condBranch_decides hd hopen ht
  | ret args => exact op_ret_decides hd hopen ht
  | _ => simp [Op.isTerminator] at hterm

end Lower

end FieldSSA
