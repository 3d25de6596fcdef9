import FieldSSA.Proofs.SegmentCode

/-!
Places in a stream of operations. A place inside a segment is described by the operations ahead,
the ledger of the segment so far and the fact that control can get there; what is before it is in
order. Streams are shown to be well-formed by going from place to place, and at each place only
the variables that are still to be read matter. Direct executions go through the same places.
-/

namespace FieldSSA

theorem Op.isTerminator_of_mem_targets {o : Op} {l : Label} (h : l ∈ o.targets) :
    o.isTerminator = true := by
  cases o with
  | branch | condBranch => rfl
  | _ => simp [targets] at h

namespace Source

variable {s : Source} {os rest ahead : List Op} {o : Op} {l : Label} {params : List (Var × Ty)}

theorem suffix_of_findLabel (h : findLabel l os = some (params, ahead)) :
    .label l params :: ahead <:+ os := by
  induction os with
  | nil => cases h
  | cons o os ih =>
      cases hlabel : o.isLabel with
      | false =>
          rw [findLabel_cons hlabel] at h
          exact (ih h).trans (List.suffix_cons o os)
      | true =>
          obtain ⟨m, params', rfl⟩ := Op.exists_eq_label hlabel
          rw [findLabel] at h
          split at h
          · rename_i heq
            cases heq
            cases h
            exact List.suffix_refl _
          · exact (ih h).trans (List.suffix_cons _ os)

/-- Where labels are placed once, a label is found at its place. -/
theorem findLabel_of_suffix (hlabels : (placedLabels os).Nodup)
    (h : .label l params :: ahead <:+ os) : findLabel l os = some (params, ahead) := by
  obtain ⟨before, rfl⟩ := h
  induction before with
  | nil => simp [findLabel]
  | cons o before ih =>
      rw [List.cons_append] at hlabels ⊢
      cases hlabel : o.isLabel with
      | false =>
          rw [placedLabels_cons hlabel] at hlabels
          rw [findLabel_cons hlabel]
          exact ih hlabels
      | true =>
          obtain ⟨m, params', rfl⟩ := Op.exists_eq_label hlabel
          rw [placedLabels_label, List.nodup_cons] at hlabels
          have hmem : l ∈ placedLabels (before ++ .label l params :: ahead) :=
            mem_placedLabels_of_findLabel (ih hlabels.2)
          have hne : m ≠ l := fun heq => hlabels.1 (heq ▸ hmem)
          rw [findLabel, if_neg hne]
          exact ih hlabels.2

/-- Control can get to operations of the stream: it starts with the first, goes on to the next or
takes a branch. -/
inductive Control (s : Source) : List Op → Prop
  | start : s.Control s.ops
  | next {o : Op} {rest : List Op} :
      s.Control (o :: rest) → o.isTerminator = false → s.Control rest
  | jump {o : Op} {rest ahead : List Op} {l : Label} {params : List (Var × Ty)} :
      s.Control (o :: rest) → l ∈ o.targets → findLabel l s.ops = some (params, ahead) →
        s.Control ahead

/-- A branch that control can get to goes to the label. -/
def Targeted (s : Source) (l : Label) : Prop :=
  ∃ o rest, s.Control (o :: rest) ∧ l ∈ o.targets

theorem Control.suffix (h : s.Control os) : os <:+ s.ops := by
  induction h with
  | start => exact List.suffix_refl _
  | next _ _ ih => exact (List.suffix_cons _ _).trans ih
  | jump _ _ hfound _ => exact (List.suffix_cons _ _).trans (suffix_of_findLabel hfound)

theorem SegmentOk.eq_last_of_mem_targets {seg : Segment} (hok : s.SegmentOk seg)
    (ho : o ∈ seg.ops) (hl : l ∈ o.targets) : o = seg.last := by
  rcases List.mem_append.mp ho with hbody | hlast
  · have hterm := Op.isTerminator_of_mem_targets hl
    rw [(hok.body o hbody).2] at hterm
    cases hterm
  · exact List.mem_singleton.mp hlast

/-- Control is always in a segment, and the targets of the segment are reached. -/
theorem Control.exists_segment {y : Layout} (hy : s.LaidOut y) (h : s.Control os) :
    ∃ seg tail more, os = tail ++ more ∧ tail ≠ [] ∧ tail <:+ seg.ops ∧ s.SegmentOk seg ∧
      ∀ l ∈ seg.last.targets, y.Reached l := by
  induction h with
  | start =>
      refine ⟨y.entry, y.entry.ops, Layout.labelledOps y.labelled, hy.ops.symm, ?_,
        List.suffix_refl _, hy.entry, fun l hl => .entry hl⟩
      simp [Segment.ops]
  | @next o rest _ hterm ih =>
      obtain ⟨seg, tail, more, heq, hne, hsuffix, hok, htargets⟩ := ih
      obtain ⟨o', tail, rfl⟩ := List.exists_cons_of_ne_nil hne
      obtain ⟨rfl, rfl⟩ := List.cons.inj heq
      refine ⟨seg, tail, more, rfl, ?_, (List.suffix_cons _ _).trans hsuffix, hok, htargets⟩
      -- the last operation of a segment is its terminator
      rintro rfl
      obtain ⟨before, hops⟩ := hsuffix
      obtain ⟨-, hlast⟩ := List.append_inj' hops rfl
      rw [(List.cons.inj hlast).1, hok.last] at hterm
      cases hterm
  | @jump o rest ahead l params _ hl hfound ih =>
      obtain ⟨seg, tail, more, heq, hne, hsuffix, hok, htargets⟩ := ih
      obtain ⟨o', tail, rfl⟩ := List.exists_cons_of_ne_nil hne
      obtain ⟨rfl, -⟩ := List.cons.inj heq
      have hlast := hok.eq_last_of_mem_targets (hsuffix.subset List.mem_cons_self) hl
      have hreached : y.Reached l := htargets l (hlast ▸ hl)
      have hplaced := mem_placedLabels_of_findLabel hfound
      rw [hy.placedLabels] at hplaced
      obtain ⟨⟨_, seg'⟩, hseg', rfl⟩ := List.mem_map.mp hplaced
      obtain ⟨more', hfound'⟩ := hy.findLabel hseg'
      obtain ⟨-, rfl⟩ : params = seg'.params ∧ ahead = seg'.ops ++ more' := by
        simpa [hfound'] using hfound.symm
      refine ⟨seg', seg'.ops, more', rfl, ?_, List.suffix_refl _, hy.labelled _ hseg',
        fun l' hl' => hreached.next hseg' hl'⟩
      simp [Segment.ops]

theorem Targeted.reached {y : Layout} (hy : s.LaidOut y) (h : s.Targeted l) : y.Reached l := by
  obtain ⟨o, rest, hcontrol, hl⟩ := h
  obtain ⟨seg, tail, more, heq, hne, hsuffix, hok, htargets⟩ := hcontrol.exists_segment hy
  obtain ⟨o', tail, rfl⟩ := List.exists_cons_of_ne_nil hne
  obtain ⟨rfl, -⟩ := List.cons.inj heq
  exact htargets l (hok.eq_last_of_mem_targets (hsuffix.subset List.mem_cons_self) hl ▸ hl)

theorem wellFormed_of_targeted (h : s.Lowerable)
    (hlabels : ∀ l ∈ placedLabels s.ops, s.Targeted l) : s.WellFormed := by
  obtain ⟨y, hy⟩ := lowerable_iff.mp h
  refine ⟨y, hy, fun l hl => (hlabels l ?_).reached hy⟩
  rwa [hy.placedLabels]

end Source

/-- The variables from `x` on are new, some variables can be read, and some are stored. -/
structure Ledger.Has (g : Ledger) (x : Nat) (live : List (Var × Ty)) (stored : List Var) : Prop
    where
  defined : ∀ p ∈ g.defined, p.1.index < x
  used : ∀ v ∈ g.used, v.index < x
  offers : g.Offers live
  stored : stored ⊆ g.stored

/-- As many variables, numbered from `x`. -/
def newVars (x count : Nat) : List Var :=
  (List.range' x count).map Var.mk

theorem mem_newVars_iff {x count : Nat} {v : Var} :
    v ∈ newVars x count ↔ x ≤ v.index ∧ v.index < x + count := by
  simp only [newVars, List.mem_map, List.mem_range'_1]
  constructor
  · rintro ⟨i, hi, rfl⟩
    exact hi
  · exact fun hv => ⟨v.index, hv, rfl⟩

theorem nodup_newVars (x count : Nat) : (newVars x count).Nodup :=
  (List.nodup_range' 1).map fun _ _ => Var.mk.inj

theorem Op.stores_mono {o : Op} {stored stored' : List Var} (h : stored ⊆ stored') :
    o.stores stored ⊆ o.stores stored' := by
  cases o with
  | dup ty src first second =>
      by_cases hsrc : src ∈ stored
      · simp [stores, hsrc, h hsrc]
      · simp [stores, hsrc]
  | rename ty src dest =>
      by_cases hsrc : src ∈ stored
      · simp [stores, hsrc, h hsrc]
      · simp [stores, hsrc]
  | _ => exact List.Subset.refl _

namespace Ledger

variable {g : Ledger} {x : Nat} {live live' : List (Var × Ty)} {stored stored' : List Var}

theorem Has.weaken (h : g.Has x live stored) (hlive : live'.Subperm live)
    (hstored : stored' ⊆ stored) : g.Has x live' stored' := by
  obtain ⟨mid, hperm, hsub⟩ := hlive
  have hpermVars := hperm.map Prod.fst
  have hsubVars := hsub.map Prod.fst
  refine ⟨h.defined, h.used, ⟨?_, ?_, ?_⟩, fun v hv => h.stored (hstored hv)⟩
  · exact fun p hp => h.offers.defined (hsub.subset (hperm.mem_iff.mpr hp))
  · exact fun v hv hv' => h.offers.unused hv (hsubVars.subset (hpermVars.mem_iff.mpr hv'))
  · exact hpermVars.nodup_iff.mp (h.offers.distinct.sublist hsubVars)

theorem has_ofParams {params : List (Var × Ty)} (hbelow : ∀ p ∈ params, p.1.index < x)
    (hdistinct : (params.map Prod.fst).Nodup) :
    (ofParams params).Has x params (params.map Prod.fst) := by
  refine ⟨hbelow, ?_, ⟨List.Subset.refl _, ?_, hdistinct⟩, List.Subset.refl _⟩
  · simp [ofParams]
  · simp [ofParams]

end Ledger

section Record

variable {s : Source} {g : Ledger} {x : Nat} {others : List (Var × Ty)} {stored : List Var}
  {o : Op} {r : Recipe} {args results : List Var}

namespace Ledger

variable (h : g.Has x (args.zip r.params ++ others) stored)
  (hcall : o.asCall? = some (r, args, results)) (hargs : r.params.length = args.length)
  (hresults : results = newVars x r.results.length)

include h hcall hargs hresults

theorem Has.admits : g.Admits s o := by
  have hcount : r.results.length = results.length := by simp [hresults, newVars]
  have hvars : o.defs.map Prod.fst = results := by
    rw [Op.defs_of_asCall? hcall, List.map_fst_zip (Nat.le_of_eq hcount.symm)]
  refine ⟨(Source.fits_iff_of_asCall? hcall).mpr ⟨hargs, hcount⟩, ?_, ⟨?_, ?_⟩, ?_⟩
  · rw [Source.reads_of_asCall? hcall]
    exact (offers_append_iff.mp h.offers).1
  · intro v hv hv'
    obtain ⟨p, hp, rfl⟩ := List.mem_map.mp hv
    rw [hvars, hresults, mem_newVars_iff] at hv'
    have := h.defined p hp
    omega
  · rw [hvars, hresults]
    exact nodup_newVars x _
  · simp [Op.leaving_of_not_isTerminator (Op.isTerminator_of_asCall? hcall)]

/-- What an operation does not read can still be read, and so can its results. -/
theorem Has.record : (g.record s o).Has (x + r.results.length) (results.zip r.results ++ others)
    (stored ++ o.stores stored) := by
  have hcount : r.results.length = results.length := by simp [hresults, newVars]
  have hvars : (results.zip r.results).map Prod.fst = results :=
    List.map_fst_zip (Nat.le_of_eq hcount.symm)
  have hread : (args.zip r.params).map Prod.fst = args :=
    List.map_fst_zip (Nat.le_of_eq hargs.symm)
  have hnew : ∀ v ∈ results, x ≤ v.index ∧ v.index < x + r.results.length := fun v hv =>
    mem_newVars_iff.mp (hresults ▸ hv)
  obtain ⟨hdefined, hunused, hdistinct⟩ := h.offers
  have hold : ∀ v ∈ args ++ others.map Prod.fst, v.index < x := by
    intro v hv
    rw [← hread, ← List.map_append] at hv
    obtain ⟨p, hp, rfl⟩ := List.mem_map.mp hv
    exact h.defined p (hdefined hp)
  rw [List.map_append, hread, List.disjoint_append_right] at hunused
  rw [List.map_append, hread, List.nodup_append'] at hdistinct
  rw [List.append_subset] at hdefined
  rw [Ledger.record, Op.defs_of_asCall? hcall, Source.reads_of_asCall? hcall, hread]
  refine ⟨?_, ?_, ⟨?_, ?_, ?_⟩, ?_⟩
  · intro p hp
    rcases List.mem_append.mp hp with hp | hp
    · have := h.defined p hp
      omega
    · exact (hnew p.1 (List.of_mem_zip hp).1).2
  · intro v hv
    rcases List.mem_append.mp hv with hv | hv
    · have := h.used v hv
      omega
    · have := hold v (List.mem_append_left _ hv)
      omega
  · exact List.append_subset.mpr ⟨List.subset_append_right _ _,
      List.subset_append_of_subset_left _ hdefined.2⟩
  · rw [List.map_append, hvars, List.disjoint_append_left, List.disjoint_append_right,
      List.disjoint_append_right]
    refine ⟨⟨?_, hunused.2⟩, ?_, hdistinct.2.2⟩
    · intro v hv hv'
      have := h.used v hv
      have := hnew v hv'
      omega
    · intro v hv hv'
      have := hold v (List.mem_append_left _ hv)
      have := hnew v hv'
      omega
  · rw [List.map_append, hvars, List.nodup_append']
    refine ⟨hresults ▸ nodup_newVars x _, hdistinct.2.1, ?_⟩
    intro v hv hv'
    have := hold v (List.mem_append_right _ hv')
    have := hnew v hv
    omega
  · exact List.append_subset.mpr ⟨List.subset_append_of_subset_left _ h.stored,
      List.subset_append_of_subset_right _ (Op.stores_mono h.stored)⟩

end Ledger

end Record

namespace Source

variable {s : Source} {g : Ledger} {rest : List Op} {o : Op} {l : Label}
  {params : List (Var × Ty)}

/-- A place inside a segment. -/
structure Inside (s : Source) (g : Ledger) (ahead : List Op) : Prop where
  accepts : s.Accepts (some g) ahead → s.Accepts (some (.ofParams s.params)) s.ops
  control : s.Control ahead

/-- A place where no segment is open. -/
structure Between (s : Source) (ahead : List Op) : Prop where
  accepts : s.Accepts none ahead → s.Accepts (some (.ofParams s.params)) s.ops
  suffix : ahead <:+ s.ops

theorem inside_start (s : Source) : s.Inside (.ofParams s.params) s.ops :=
  ⟨id, .start⟩

section Call

variable {x : Nat} {stored : List Var} {r : Recipe} {args results : List Var}

/-- An operation that goes on in its segment. -/
theorem Inside.call (h : s.Inside g (o :: rest)) (others : List (Var × Ty))
    (hg : g.Has x (args.zip r.params ++ others) stored)
    (hcall : o.asCall? = some (r, args, results)) (hargs : r.params.length = args.length)
    (hresults : results = newVars x r.results.length) :
    ∃ g', s.Inside g' rest ∧ g'.Has (x + r.results.length) (results.zip r.results ++ others)
      (stored ++ o.stores stored) := by
  refine ⟨g.record s o, ⟨fun hrest => h.accepts ?_, ?_⟩, hg.record hcall hargs hresults⟩
  · exact (accepts_call_iff hcall).mpr ⟨hg.admits hcall hargs hresults, hrest⟩
  · exact h.control.next (Op.isTerminator_of_asCall? hcall)

/-- An operation that ends its segment. -/
theorem Inside.close (h : s.Inside g (o :: rest)) (hterm : o.isTerminator = true)
    (hfits : s.Fits o) (hg : g.Has x (s.reads o) o.leaving) :
    s.Between rest ∧ ∀ l ∈ o.targets, s.Targeted l := by
  have hadmits : g.Admits s o := by
    refine ⟨hfits, hg.offers, ?_, hg.stored⟩
    rw [Op.defs_of_isTerminator hterm]
    exact g.lacks_nil
  refine ⟨⟨fun hrest => h.accepts ?_, ?_⟩, fun l hl => ⟨o, rest, h.control, hl⟩⟩
  · exact (accepts_terminator_iff (Op.isLabel_of_isTerminator hterm) hterm).mpr ⟨hadmits, hrest⟩
  · exact (List.suffix_cons o rest).trans h.control.suffix

theorem Inside.branch {types : List Ty} (h : s.Inside g (.branch l args :: rest))
    (htypes : s.labelTypes? l = some types) (hlen : types.length = args.length)
    (hg : g.Has x (args.zip types) args) : s.Between rest ∧ s.Targeted l := by
  have hreads : s.reads (.branch l args) = args.zip types := by
    simp [reads, htypes]
  obtain ⟨hbetween, htargeted⟩ := h.close rfl ⟨types, htypes, hlen⟩ (hreads ▸ hg)
  exact ⟨hbetween, htargeted l (.head _)⟩

end Call

theorem Between.opens (h : s.Between (.label l params :: rest))
    (hlabels : (placedLabels s.ops).Nodup) (htargeted : s.Targeted l)
    (hparams : (params.map Prod.fst).Nodup) : s.Inside (.ofParams params) rest := by
  obtain ⟨o, more, hcontrol, hl⟩ := htargeted
  refine ⟨fun hrest => h.accepts ⟨hparams, hrest⟩, ?_⟩
  exact hcontrol.jump hl (findLabel_of_suffix hlabels h.suffix)

/-- The direct execution goes from one state to another by this many operations. -/
inductive Goes (s : Source) : Nat → SourceState → SourceState → Prop
  | refl {st : SourceState} : s.Goes 0 st st
  | head {n : Nat} {st st' st'' : SourceState} :
      s.step st = .ok (.inl st') → s.Goes n st' st'' → s.Goes (n + 1) st st''

theorem Goes.single {st st' : SourceState} (h : s.step st = .ok (.inl st')) : s.Goes 1 st st' :=
  .head h .refl

theorem Goes.trans {n k : Nat} {st st' st'' : SourceState} (h : s.Goes n st st')
    (h' : s.Goes k st' st'') : s.Goes (n + k) st st'' := by
  induction h with
  | refl => rwa [Nat.zero_add]
  | head hstep _ ih =>
      rw [Nat.add_right_comm]
      exact .head hstep (ih h')

theorem Goes.runFrom_add {n : Nat} {st st' : SourceState} (h : s.Goes n st st') (budget : Nat) :
    s.runFrom (n + budget) st = s.runFrom budget st' := by
  induction h with
  | refl => rw [Nat.zero_add]
  | head hstep _ ih =>
      rw [Nat.add_right_comm, runFrom, hstep]
      exact ih

section Steps

variable {scope : List (Var × Scalar)} {args : List Var} {data : List Scalar} {ty : Ty}
  {src dest : Var} {d : Scalar}

/-- Variables have values in a scope, in position. -/
abbrev Looks (scope : List (Var × Scalar)) (args : List Var) (data : List Scalar) : Prop :=
  List.Forall₂ (fun v d => scope.lookup v = some d) args data

theorem readAll_of_looks {ahead : List Op} (h : Looks scope args data) :
    (SourceState.mk ahead scope).readAll args = .ok data := by
  refine mapM_eq_ok_iff.mpr (h.imp fun v d hv => ?_)
  simp [SourceState.read, hv]

theorem step_dup {first second : Var} (h : scope.lookup src = some d) :
    s.step ⟨.dup ty src first second :: rest, scope⟩ =
      .ok (.inl ⟨rest, (second, d) :: (first, d) :: scope⟩) := by
  simp [step, SourceState.read, h, pure, Except.pure]

theorem step_storeTemp (h : scope.lookup src = some d) :
    s.step ⟨.storeTemp ty src dest :: rest, scope⟩ =
      .ok (.inl ⟨rest, (dest, d) :: scope⟩) := by
  simp [step, SourceState.read, h, pure, Except.pure]

theorem step_rename (h : scope.lookup src = some d) :
    s.step ⟨.rename ty src dest :: rest, scope⟩ = .ok (.inl ⟨rest, (dest, d) :: scope⟩) := by
  simp [step, SourceState.read, h, pure, Except.pure]

theorem step_call {libfunc : String} {results : List Var} {outputs : List Scalar}
    (h : Looks scope args data) (heval : evalLibfunc libfunc data = .ok outputs)
    (hlen : results.length = outputs.length) :
    s.step ⟨.call libfunc args results :: rest, scope⟩ =
      .ok (.inl ⟨rest, results.zip outputs ++ scope⟩) := by
  simp [step, readAll_of_looks h, heval, bindVars, hlen, pure, Except.pure]

theorem step_branch {target : Label} {params : List (Var × Ty)} {ahead : List Op}
    (h : Looks scope args data) (hfound : findLabel target s.ops = some (params, ahead))
    (hlen : params.length = data.length) :
    s.step ⟨.branch target args :: rest, scope⟩ =
      .ok (.inl ⟨ahead, (params.map Prod.fst).zip data⟩) := by
  simp [step, readAll_of_looks h, jump, hfound, bindVars, hlen, pure, Except.pure]

/-- A conditional branch goes on as the branch that it chooses. -/
theorem step_condBranch {cond : Var} (chosen : Bool) {onTrue onFalse : Label}
    {trueArgs falseArgs : List Var} (h : scope.lookup cond = some (.bool chosen)) :
    s.step ⟨.condBranch cond onTrue trueArgs onFalse falseArgs :: rest, scope⟩ =
      s.step ⟨.branch (if chosen then onTrue else onFalse) (if chosen then trueArgs else falseArgs)
        :: rest, scope⟩ := by
  cases chosen <;> simp only [step, SourceState.read, h] <;> rfl

end Steps

end Source

end FieldSSA
