import FieldSSA.Proofs.LabelPass
import FieldSSA.Proofs.LowerCalls
import FieldSSA.Proofs.UnusedValues

namespace FieldSSA

namespace Recipe

/-- The instructions of a recipe for given arguments and results. The zero of a test for zero is
the value before its result. -/
def instructions (args results : List ValueId) (r : Recipe) : List Instruction :=
  match r, args, results with
  | constant imm, _, [x] => [.const x imm]
  | helper callee, args, results => [.call callee args results]
  | comparison _ pred, [lhs, rhs], [x] => [.cmp x pred lhs rhs]
  | zeroTest ty, [v], [x] => [.const ⟨x.index - 1⟩ (.zero ty), .cmp x .eq v ⟨x.index - 1⟩]
  | _, _, _ => []

theorem code_instructions {r : Recipe} {args : List ValueId} (next : Nat)
    (hlen : args.length = r.params.length) :
    (r.code next args).instructions = r.instructions args (r.code next args).outputs := by
  cases r.shaped hlen rfl with
  | constant | helper | comparison | zeroTest => rfl

section Shape

variable {r : Recipe} {args results : List ValueId} (hargs : args.length = r.params.length)
  (hresults : results.length = r.results.length)

include hargs hresults

theorem length_instructions : (r.instructions args results).length = r.size := by
  cases r.shaped hargs hresults with
  | constant | helper | comparison | zeroTest => rfl

theorem results_sublist_instructions :
    results.Sublist ((r.instructions args results).flatMap Instruction.results) := by
  cases r.shaped hargs hresults with
  | constant | comparison => exact .refl _
  | helper => simp [instructions, Instruction.results]
  | zeroTest => exact List.sublist_cons_self _ _

end Shape

end Recipe

namespace Op

/-- The instructions of an operation, with values for its variables. -/
def lowered (val : Var → ValueId) (o : Op) : List Instruction :=
  match o.asCall? with
  | some (r, args, results) => r.instructions (args.map val) (results.map val)
  | none => []

/-- The terminator of an operation, with values for its variables and blocks for its labels. -/
def terminator? (val : Var → ValueId) (blockOf : Label → BlockId) : Op → Option Terminator
  | .branch l args => some (.br ⟨blockOf l, args.map val⟩)
  | .condBranch cond l args l' args' =>
      some (.condBr (val cond) ⟨blockOf l, args.map val⟩ ⟨blockOf l', args'.map val⟩)
  | .ret args => some (.ret (args.map val))
  | _ => none

variable {s : Source} {o : Op}

theorem exists_asCall? (hfits : s.Fits o) (hlabel : o.isLabel = false)
    (hterm : o.isTerminator = false) : ∃ r args results, o.asCall? = some (r, args, results) := by
  cases o with
  | call libfunc args results =>
      obtain ⟨l, hl, -⟩ := hfits
      rw [Recipe.get?_default] at hl
      obtain ⟨r, hr, -⟩ := Option.map_eq_some_iff.mp hl
      exact ⟨r, args, results, by simp [asCall?, hr]⟩
  | label _ _ => simp [isLabel] at hlabel
  | branch _ _ | condBranch _ _ _ _ _ | ret _ => simp [isTerminator] at hterm
  | _ => exact ⟨_, _, _, rfl⟩

section Fits

variable (hfits : s.Fits o) (hlabel : o.isLabel = false) (hterm : o.isTerminator = false)
  (val : Var → ValueId)

include hfits hlabel hterm

theorem length_lowered : (o.lowered val).length = o.codeSize := by
  obtain ⟨r, args, results, hcall⟩ := exists_asCall? hfits hlabel hterm
  obtain ⟨hparams, hresults⟩ := (Source.fits_iff_of_asCall? hcall).mp hfits
  rw [codeSize_of_asCall? hcall, lowered, hcall]
  exact Recipe.length_instructions (by simp [hparams]) (by simp [hresults])

theorem defs_sublist_lowered :
    ((o.defs.map Prod.fst).map val).Sublist ((o.lowered val).flatMap Instruction.results) := by
  obtain ⟨r, args, results, hcall⟩ := exists_asCall? hfits hlabel hterm
  obtain ⟨hparams, hresults⟩ := (Source.fits_iff_of_asCall? hcall).mp hfits
  rw [defs_of_asCall? hcall, List.map_fst_zip (Nat.le_of_eq hresults.symm), lowered, hcall]
  exact Recipe.results_sublist_instructions (by simp [hparams]) (by simp [hresults])

end Fits

end Op

section Segments

variable {src : Source} {labels : List (Label × BlockId)} {f : Function} {vals : Assignment}
  {val : Var → ValueId} {blockOf : Label → BlockId}

theorem Assignment.map_eq_of_gives {args : List Var} {xs : List ValueId}
    (hval : ∀ v x, vals v = some x → val v = x) (h : vals.Gives args xs) : args.map val = xs := by
  induction h with
  | nil => rfl
  | cons hx _ ih => rw [List.map_cons, hval _ _ hx, ih]

theorem Assignment.map_eq_of_set {vars : List Var} {values : List ValueId} (hnodup : vars.Nodup)
    (hlen : vars.length = values.length)
    (hval : ∀ v x, vals.set vars values v = some x → val v = x) : vars.map val = values := by
  refine Assignment.map_eq_of_gives hval (List.forall₂_iff_zip.mpr ⟨hlen, ?_⟩)
  intro v x hzip
  exact Assignment.set_of_mem_zip hnodup hzip

theorem Ends.terminator? {o : Op} {t : Terminator} (h : Ends src labels f vals o t)
    (hval : ∀ v x, vals v = some x → val v = x)
    (hblocks : ∀ l id, labels.lookup l = some id → blockOf l = id) :
    o.terminator? val blockOf = some t := by
  have hedge {l : Label} {args : List Var} {edge : Edge}
      (h : EdgeCoded src labels f vals l args edge) : ⟨blockOf l, args.map val⟩ = edge := by
    rw [hblocks l _ h.dest, Assignment.map_eq_of_gives hval h.args]
  cases h with
  | branch h => rw [Op.terminator?, hedge h]
  | condBranch hcond _ h h' => rw [Op.terminator?, hedge h, hedge h', hval _ _ hcond]
  | ret hargs _ => rw [Op.terminator?, Assignment.map_eq_of_gives hval hargs]

/-- The code of operations up to a terminator, with one value for each variable. -/
theorem Coded.exists_lowered {next : Nat} {body : List Op} {last : Op} {more : List Op}
    {is : List Instruction} {t : Terminator} {defined : List Var}
    (h : Coded src labels f vals next (body ++ last :: more) is t)
    (hbody : ∀ o ∈ body, o.isTerminator = false) (hlast : last.isTerminator = true)
    (hdefined : ∀ v x, vals v = some x → v ∈ defined)
    (hnodup : (defined ++ (body.flatMap Op.defs).map Prod.fst).Nodup)
    (hblocks : ∀ l id, labels.lookup l = some id → blockOf l = id) :
    ∃ val : Var → ValueId, (∀ v x, vals v = some x → val v = x) ∧
      is = body.flatMap (Op.lowered val) ∧ last.terminator? val blockOf = some t := by
  -- the values of all variables of the segment, of which `vals` gives those defined so far
  induction body generalizing vals next is defined with
  | nil =>
      rw [List.nil_append] at h
      cases h with
      | last hends =>
          have hval : ∀ v x, vals v = some x → (vals v).getD default = x := fun v x hx => by
            rw [hx, Option.getD_some]
          exact ⟨fun v => (vals v).getD default, hval, rfl, hends.terminator? hval hblocks⟩
      | step hcall => simp [Op.isTerminator_of_asCall? hcall] at hlast
  | cons o body ih =>
      rw [List.forall_mem_cons] at hbody
      rw [List.cons_append] at h
      cases h with
      | last hends => simp [hends.isTerminator] at hbody
      | @step _ _ _ _ r args results xs is _ hcall hlen hargs htypes _ hrest =>
          have hdefs : o.defs.map Prod.fst = results := by
            rw [Op.defs_of_asCall? hcall, List.map_fst_zip (Nat.le_of_eq hlen.symm)]
          rw [List.flatMap_cons, List.map_append, hdefs, ← List.append_assoc] at hnodup
          obtain ⟨-, hresults, hfresh⟩ := List.nodup_append'.mp (List.nodup_append'.mp hnodup).1
          have hdefined' : ∀ v x, vals.set results (r.code next xs).outputs v = some x →
              v ∈ defined ++ results := by
            intro v x hx
            rcases Assignment.mem_zip_of_set hx with hzip | hold
            · exact List.mem_append_right _ (List.of_mem_zip hzip).1
            · exact List.mem_append_left _ (hdefined v x hold)
          obtain ⟨val, hval, rfl, hterm⟩ := ih hrest hbody.2 hdefined' hnodup
          have hold : ∀ v x, vals v = some x → val v = x := by
            intro v x hx
            refine hval v x ?_
            rwa [Assignment.set_of_notMem (hfresh (hdefined v x hx))]
          have houtputs : results.length = (r.code next xs).outputs.length := by
            rw [Recipe.length_code_outputs htypes.length_eq, hlen]
          refine ⟨val, hold, ?_, hterm⟩
          rw [List.flatMap_cons, Op.lowered, hcall, Recipe.code_instructions next htypes.length_eq]
          simp only [Assignment.map_eq_of_gives hold hargs,
            Assignment.map_eq_of_set hresults houtputs hval]

/-- A block is what a segment is lowered to, with a value of its own for each variable. -/
structure Segment.LoweredTo (seg : Segment) (blockOf : Label → BlockId) (val : Var → ValueId)
    (b : Block) : Prop where
  params : b.params = (seg.params.map Prod.fst).map val
  instructions : b.instructions = seg.body.flatMap (Op.lowered val)
  terminator : seg.last.terminator? val blockOf = some b.terminator
  distinct : (((seg.params ++ seg.body.flatMap Op.defs).map Prod.fst).map val).Nodup

theorem Source.SegmentOk.defs_sublist {seg : Segment} (hok : src.SegmentOk seg)
    (val : Var → ValueId) :
    (((seg.body.flatMap Op.defs).map Prod.fst).map val).Sublist
      ((seg.body.flatMap (Op.lowered val)).flatMap Instruction.results) := by
  have hfits : ∀ o ∈ seg.body, src.Fits o := fun o ho => hok.fits o (List.mem_append_left _ ho)
  have hplain := hok.body
  generalize seg.body = body at hfits hplain
  induction body with
  | nil => exact .refl _
  | cons o body ih =>
      rw [List.forall_mem_cons] at hfits hplain
      simp only [List.flatMap_cons, List.map_append, List.flatMap_append]
      exact (Op.defs_sublist_lowered hfits.1 hplain.1.1 hplain.1.2 val).append
        (ih hfits.2 hplain.2)

theorem BlockCoded.exists_loweredTo {seg : Segment} {more : List Op} {b : Block}
    (h : BlockCoded src labels f seg.params (seg.ops ++ more) b) (hok : src.SegmentOk seg)
    (hdefinitions : b.definitions.Nodup)
    (hblocks : ∀ l id, labels.lookup l = some id → blockOf l = id) :
    ∃ val, seg.LoweredTo blockOf val b := by
  obtain ⟨next, -, hcoded⟩ := h.code
  have hnodup := hok.defined_once
  rw [List.map_append] at hnodup
  rw [Segment.ops, List.append_assoc] at hcoded
  have hdefined : ∀ v x, Assignment.set (fun _ => none) (seg.params.map Prod.fst) b.params v =
      some x → v ∈ seg.params.map Prod.fst := by
    intro v x hx
    rcases Assignment.mem_zip_of_set hx with hzip | hnone
    · exact (List.of_mem_zip hzip).1
    · cases hnone
  obtain ⟨val, hval, hinstructions, hterm⟩ := hcoded.exists_lowered
    (fun o ho => (hok.body o ho).2) hok.last hdefined hnodup hblocks
  have hparams : (seg.params.map Prod.fst).map val = b.params := by
    refine Assignment.map_eq_of_set (List.nodup_append'.mp hnodup).1 ?_ hval
    rw [h.typed.length_eq, List.length_map, List.length_map]
  refine ⟨val, hparams.symm, hinstructions, hterm, ?_⟩
  rw [List.map_append, List.map_append, hparams]
  refine hdefinitions.sublist ?_
  rw [Block.definitions, hinstructions]
  exact (hok.defs_sublist val).append_left b.params

end Segments

/-- The segments of a layout, in order. -/
def Layout.segments (y : Layout) : List Segment :=
  y.entry :: y.labelled.map Prod.snd

namespace Source

open LowerState

/-- The block of a label: labels are counted from the first block after the entry. -/
def blockOf (s : Source) (l : Label) : BlockId :=
  ⟨(placedLabels s.ops).idxOf l + 1⟩

/-- The states that the lowering of a source goes through: the parameters are bound after the
pass over the labels, and the operations follow. -/
structure LoweredBy (s : Source) (started finished : LowerState) : Prop where
  bound : (Lower.bindEntry s.paramVars).exec ⟨s.name, .default⟩
    ((initial s).declaredAll (declaredLabels s.ops)) = .ok ((), started)
  labels : started.labels = ((initial s).declaredAll (declaredLabels s.ops)).labels
  builder : started.workspace.builder =
    ((initial s).declaredAll (declaredLabels s.ops)).workspace.builder
  begun : Begun s (entryBlock s) started
  tracks : Tracks (.ofParams s.params) started
  ran : (Lower.ops 0 s.ops).exec ⟨s.name, .default⟩ started = .ok ((), finished)
  lowered : Lowered s s.ops started finished

variable {s : Source} {c : Config} {f : Function}

/-- An emitted function is sealed from the builder that lowering leaves behind. -/
theorem exists_loweredBy_of_emit (hc : c.validate = .ok ()) (h : s.emit .default c = .ok f) :
    ∃ started finished, s.LoweredBy started finished ∧
      finished.workspace.builder.sealed = .ok f ∧
      (Lower.body s.paramVars s.ops).exec ⟨s.name, .default⟩ (initial s) =
        .ok (finished.summary, finished) := by
  rw [emit_eq hc] at h
  obtain ⟨⟨summary, finished⟩, hbody, hseal⟩ := bind_eq_ok_iff.mp h
  have hsealed : finished.workspace.builder.sealed = .ok f := sealed_of_sealWith hseal
  rw [hbody]
  rw [Lower.body_eq, Lower.exec_bind] at hbody
  rcases Lower.declareLabels_initial ⟨s.name, .default⟩ s with ⟨hdistinct, hpass⟩ |
    ⟨_, _, _, _, -, -, -, hpass⟩
  · rw [hpass, ok_bind, Lower.bodyAfterLabels, Lower.exec_bind] at hbody
    obtain ⟨⟨_, started⟩, hbound, hbody⟩ := bind_eq_ok_iff.mp hbody
    have hdeclared := ((Lower.declareLabels_decides (labelTable_initial s)).of_ok hpass).2
    have hblk := block?_of_prefix hdeclared.blocks block?_initial
    have htyped := Builder.hasTypes_of_grows hdeclared.grows (@typed_initial s)
    have hbrought := ((Lower.bindEntry_decides hblk htyped hdeclared.tracks.1).of_ok hbound).2
    have hbegun := hdeclared.begun hdistinct hbrought
    have ht : Tracks (.ofParams s.params) started := by
      simpa [Ledger.define, Ledger.ofParams] using hbrought.tracks
    have hlowered := ((Lower.ops_decides rfl (Lower.finishes_summary ⟨s.name, .default⟩
      s.ops.length LowerState.summary) hbegun.ready (hbegun.active ht)).of_ok hbody).2
    -- the end of the body reads the state and leaves it as it is
    rw [Lower.exec_bind] at hbody
    obtain ⟨⟨_, last⟩, hran, hbody⟩ := bind_eq_ok_iff.mp hbody
    rw [Lower.exec_bind, Lower.exec_get, ok_bind] at hbody
    split at hbody
    · cases hbody
    · obtain ⟨rfl, rfl⟩ : last.summary = summary ∧ last = finished := by simpa using hbody
      exact ⟨started, last, ⟨hbound, hbrought.labels, hbrought.builder, hbegun, ht, hran,
        hlowered⟩, hsealed, rfl⟩
  · rw [hpass] at hbody
    cases hbody

theorem LoweredBy.lookup {started finished : LowerState} (h : s.LoweredBy started finished)
    {l : Label} (hl : l ∈ placedLabels s.ops) : started.labels.lookup l = some (s.blockOf l) := by
  have hdistinct := h.begun.ready.distinct
  rw [← map_fst_declaredLabels] at hl hdistinct
  rw [h.labels, lookup_declaredAll hdistinct hl, map_fst_declaredLabels, Nat.add_comm]
  rfl

theorem LoweredBy.length_blocks {started finished : LowerState}
    (h : s.LoweredBy started finished) :
    finished.workspace.builder.blocks.length = (placedLabels s.ops).length + 1 := by
  have hparams := congrArg List.length h.lowered.keeps.params
  rw [List.length_map, List.length_map] at hparams
  rw [hparams, h.builder, length_blocks_declaredAll, ← map_fst_declaredLabels, List.length_map,
    Nat.add_comm]
  rfl

theorem LaidOut.declaredLabels {y : Layout} (h : s.LaidOut y) :
    declaredLabels s.ops = y.labelled.map fun p => (p.1, p.2.params.map Prod.snd) := by
  have hplain {seg : Segment} (hok : s.SegmentOk seg) : seg.ops.filterMap Op.declares? = [] := by
    rw [List.filterMap_eq_nil_iff]
    intro o ho
    have hlabel := hok.not_isLabel o ho
    cases o with
    | label l params => simp [Op.isLabel] at hlabel
    | _ => rfl
  have hlabelled := h.labelled
  rw [← h.ops, Layout.ops, FieldSSA.declaredLabels, List.filterMap_append, hplain h.entry,
    List.nil_append]
  generalize y.labelled = labelled at hlabelled
  induction labelled with
  | nil => rfl
  | cons p rest ih =>
      obtain ⟨hok, hrest⟩ := List.forall_mem_cons.mp hlabelled
      have hops : Layout.labelledOps (p :: rest) =
          .label p.1 p.2.params :: (p.2.ops ++ Layout.labelledOps rest) := rfl
      rw [hops, List.filterMap_cons, List.filterMap_append, hplain hok, List.nil_append, ih hrest]
      rfl

theorem LaidOut.map_types {y : Layout} (h : s.LaidOut y) :
    y.segments.map (fun seg => seg.params.map Prod.snd) =
      s.signature.params :: (FieldSSA.declaredLabels s.ops).map Prod.snd := by
  rw [h.declaredLabels, Layout.segments, List.map_cons, h.params, List.map_map, List.map_map]
  rfl

theorem LaidOut.length_segments {y : Layout} (h : s.LaidOut y) :
    y.segments.length = (FieldSSA.placedLabels s.ops).length + 1 := by
  rw [h.placedLabels, Layout.segments, List.length_cons, List.length_map, List.length_map]

/-- A segment and a block with its code. -/
def SegmentCoded (s : Source) (labels : List (Label × BlockId)) (f : Function) (seg : Segment)
    (b : Block) : Prop :=
  s.SegmentOk seg ∧ b.definitions.Nodup ∧
    ∃ more, BlockCoded s labels f seg.params (seg.ops ++ more) b

theorem LoweredBy.exists_segmentCoded {started finished : LowerState}
    (h : s.LoweredBy started finished) {y : Layout} (hy : s.LaidOut y) {k : Nat} {seg : Segment}
    (hseg : y.segments[k]? = some seg) :
    ∃ b, finished.workspace.builder.draft.blocks[k]? = some b ∧
      s.SegmentCoded started.labels finished.workspace.builder.draft seg b := by
  have htranslates := h.begun.translates h.lowered
  have hnodup := (List.nodup_flatMap.mp htranslates.definitions).1
  have hget {id : BlockId} {b : Block}
      (hb : finished.workspace.builder.draft.block? id = some b) :
      finished.workspace.builder.draft.blocks[id.index]? = some b :=
    (Option.filter_eq_some_iff.mp hb).1
  cases k with
  | zero =>
      obtain rfl : y.entry = seg := Option.some.inj hseg
      obtain ⟨b, hb, hcoded⟩ := htranslates.entry
      rw [← hy.params, ← hy.ops] at hcoded
      exact ⟨b, hget hb, hy.entry, hnodup b (List.mem_of_getElem? (hget hb)), _, hcoded⟩
  | succ k =>
      obtain ⟨⟨l, _⟩, hlabelled, rfl⟩ := Option.map_eq_some_iff.mp
        ((List.getElem?_map (f := Prod.snd)).symm.trans hseg)
      have hmem := List.mem_of_getElem? hlabelled
      obtain ⟨more, hfound⟩ := hy.findLabel hmem
      obtain ⟨id, b, -, hlookup, hb, hcoded⟩ := htranslates.placed l _ _ hfound
      have hid : s.blockOf l = id := Option.some.inj
        ((h.lookup (mem_placedLabels_of_findLabel hfound)).symm.trans hlookup)
      have hplace : (placedLabels s.ops).idxOf l = k := by
        have hlabel : (placedLabels s.ops)[k]? = some l := by
          rw [hy.placedLabels, List.getElem?_map, hlabelled]
          rfl
        obtain ⟨hlt, heq⟩ := List.getElem?_eq_some_iff.mp hlabel
        rw [← heq]
        exact h.begun.ready.distinct.idxOf_getElem k hlt
      obtain rfl : id = ⟨k + 1⟩ := by rw [← hid, blockOf, hplace]
      exact ⟨b, hget hb, hy.labelled _ hmem, hnodup b (List.mem_of_getElem? (hget hb)), more,
        hcoded⟩

/-- The blocks have the code of the segments, in order. -/
theorem LoweredBy.forall₂_segmentCoded {started finished : LowerState}
    (h : s.LoweredBy started finished) {y : Layout} (hy : s.LaidOut y) :
    List.Forall₂ (s.SegmentCoded started.labels finished.workspace.builder.draft) y.segments
      finished.workspace.builder.draft.blocks := by
  have hlength : y.segments.length = finished.workspace.builder.draft.blocks.length := by
    rw [hy.length_segments, Builder.draft, List.length_mapIdx, h.length_blocks]
  refine List.forall₂_iff_get.mpr ⟨hlength, fun k hk hk' => ?_⟩
  obtain ⟨b, hb, hcoded⟩ := h.exists_segmentCoded hy (List.getElem?_eq_getElem hk)
  obtain rfl := Option.some.inj ((List.getElem?_eq_getElem hk').symm.trans hb)
  exact hcoded

/-- An emitted function has the entry block and a block for each label, in order and with
parameters of their types. Each block is what its segment is lowered to: its instructions are those
of the operations, two for a test for zero and one for any other, and its terminator is that of the
segment, with values for variables and the places of the labels for labels. -/
theorem emit_block_layout (s : Source) (c : Config) (f : Function)
    (h : s.emit .default c = .ok f) :
    f.blocks.length = (placedLabels s.ops).length + 1 ∧ f.IdsArePlaces ∧
      List.Forall₂ (fun b types => f.HasTypes b.params types) f.blocks
        (s.signature.params :: (declaredLabels s.ops).map Prod.snd) ∧
      ∃ y, s.LaidOut y ∧
        List.Forall₂ (fun seg b => ∃ val, seg.LoweredTo s.blockOf val b) y.segments f.blocks ∧
        ∀ seg ∈ y.segments, ∀ o ∈ seg.body, ∀ val, (o.lowered val).length = o.codeSize := by
  obtain ⟨hlowerable, -⟩ := exists_translates_of_emit (validate_of_emit h) h
  obtain ⟨started, finished, hlowered, hsealed, -⟩ :=
    exists_loweredBy_of_emit (validate_of_emit h) h
  obtain rfl : finished.workspace.builder.draft = f := Builder.draft_of_sealed hsealed
  obtain ⟨y, hy⟩ := lowerable_iff.mp hlowerable
  have hlength : finished.workspace.builder.draft.blocks.length =
      (placedLabels s.ops).length + 1 := by
    rw [Builder.draft, List.length_mapIdx, hlowered.length_blocks]
  have hblocks : ∀ l id, started.labels.lookup l = some id → s.blockOf l = id := by
    intro l id hl
    have hmem : l ∈ placedLabels s.ops := by
      by_contra hmissing
      have hnone := hlowered.begun.ready.declared.missing l (labelTypes?_eq_none_iff.mpr hmissing)
      cases hnone.symm.trans hl
    exact Option.some.inj ((hlowered.lookup hmem).symm.trans hl)
  have hcoded := hlowered.forall₂_segmentCoded hy
  refine ⟨hlength, Builder.draft_idsArePlaces, ?_, y, hy, ?_, ?_⟩
  · rw [← hy.map_types, List.forall₂_map_right_iff]
    refine hcoded.flip.imp ?_
    rintro b seg ⟨-, -, more, hb⟩
    exact hb.typed
  · refine hcoded.imp ?_
    rintro seg b ⟨hok, hdefinitions, more, hb⟩
    exact hb.exists_loweredTo hok hdefinitions hblocks
  · intro seg hseg o ho val
    obtain ⟨b, -, hok, -⟩ := exists_mem_of_forall₂ hcoded hseg
    exact Op.length_lowered (hok.fits o (List.mem_append_left _ ho)) (hok.body o ho).1
      (hok.body o ho).2 val

/-- Euclid's algorithm is emitted as the entry, the loop and the exit. -/
theorem euclid_block_layout :
    ∃ f, euclid.emit .default {} = .ok f ∧ f.blocks.length = 3 ∧
      List.Forall₂ (fun b types => f.HasTypes b.params types) f.blocks
        [[.u32, .u32], [.u32, .u32], [.u32]] ∧
      ∃ y, euclid.LaidOut y ∧
        List.Forall₂ (fun seg b => ∃ val, seg.LoweredTo euclid.blockOf val b) y.segments
          f.blocks := by
  obtain ⟨f, hf⟩ := exists_emit_of_wellFormed (c := {}) rfl euclid_wellFormed
  obtain ⟨hlength, -, htypes, y, hy, hblocks, -⟩ := emit_block_layout euclid {} f hf
  exact ⟨f, hf, hlength, htypes, y, hy, hblocks⟩

end Source

end FieldSSA
