import FieldSSA.Proofs.LowerStream

namespace FieldSSA

open LowerState

namespace LowerState

/-- The labels that are declared so far have the blocks after the entry, which are empty. -/
structure LabelTable (s : LowerState) : Prop where
  entry : s.workspace.builder.blocks ≠ []
  injective : ∀ l l' id, s.labels.lookup l = some id → s.labels.lookup l' = some id → l = l'
  empty : ∀ l id, s.labels.lookup l = some id → id ≠ .entry ∧
    ∃ params, s.workspace.builder.block? id = some ⟨params, [], none⟩
  covered : ∀ id blk, s.workspace.builder.block? id = some blk →
    id = .entry ∨ ∃ l, s.labels.lookup l = some id
  isNumbered : s.workspace.builder.Numbered

/-- A label gets a new block. -/
def declared (s : LowerState) (l : Label) (types : List Ty) : LowerState :=
  { s.built (s.workspace.builder.addBlock types) with
    labels := (l, ⟨s.workspace.builder.blocks.length⟩) :: s.labels }

variable {s : LowerState} {l m : Label} {types : List Ty} {id : BlockId}

theorem block?_declared (l : Label) (types : List Ty) (id : BlockId) :
    (s.declared l types).workspace.builder.block? id =
      if id.index = s.workspace.builder.blocks.length then
        some ⟨s.workspace.builder.fresh types, [], none⟩
      else s.workspace.builder.block? id := by
  simp only [declared, built, Builder.addBlock, Builder.block?]
  split
  · rename_i heq
    simp [heq]
  · rename_i hne
    rcases Nat.lt_or_gt_of_ne hne with hlt | hgt
    · rw [List.getElem?_append_left hlt]
    · rw [List.getElem?_eq_none (by simp; omega), List.getElem?_eq_none (Nat.le_of_lt hgt)]

theorem lookup_declared (l : Label) (types : List Ty) (m : Label) :
    (s.declared l types).labels.lookup m =
      if m = l then some ⟨s.workspace.builder.blocks.length⟩ else s.labels.lookup m := by
  simp only [declared, List.lookup_cons]
  by_cases h : m = l
  · simp [h]
  · have hbeq : (m == l) = false := beq_eq_false_iff_ne.mpr h
    simp [hbeq, h]

theorem lt_length_of_block? {b : Builder} {blk : OpenBlock} (h : b.block? id = some blk) :
    id.index < b.blocks.length :=
  (List.getElem?_eq_some_iff.mp h).1

theorem LabelTable.declared (ht : LabelTable s) (l : Label) (hl : s.labels.lookup l = none)
    (types : List Ty) : LabelTable (s.declared l types) := by
  have hpos : 0 < s.workspace.builder.blocks.length := List.length_pos_iff.mpr ht.entry
  have hold {m : Label} {id : BlockId} (h : s.labels.lookup m = some id) :
      id.index ≠ s.workspace.builder.blocks.length := by
    obtain ⟨-, params, hblk⟩ := ht.empty m id h
    exact Nat.ne_of_lt (lt_length_of_block? hblk)
  refine ⟨?_, ?_, ?_, ?_, ht.isNumbered.addBlock types⟩
  · simp [LowerState.declared, Builder.addBlock]
  · intro m m' id hm hm'
    rw [lookup_declared] at hm hm'
    split at hm <;> split at hm'
    · simp_all
    · obtain rfl := Option.some.inj hm
      exact absurd rfl (hold hm')
    · obtain rfl := Option.some.inj hm'
      exact absurd rfl (hold hm)
    · exact ht.injective m m' id hm hm'
  · intro m id hm
    rw [lookup_declared] at hm
    rw [block?_declared]
    split at hm
    · obtain rfl := Option.some.inj hm
      refine ⟨fun heq => ?_, _, if_pos rfl⟩
      exact absurd (congrArg BlockId.index heq) (Nat.ne_of_gt hpos)
    · rw [if_neg (hold hm)]
      exact ht.empty m id hm
  · intro id blk hblk
    rw [block?_declared] at hblk
    split at hblk
    · rename_i heq
      refine .inr ⟨l, ?_⟩
      rw [lookup_declared, if_pos rfl, ← heq]
    · rcases ht.covered id blk hblk with hentry | ⟨m, hm⟩
      · exact .inl hentry
      · refine .inr ⟨m, ?_⟩
        have hne : m ≠ l := fun heq => by simp [heq, hl] at hm
        rw [lookup_declared, if_neg hne, hm]

/-- Labels were declared, each with a block of its types. -/
structure LabelsDeclared (os : List Op) (s s' : LowerState) : Prop where
  table : LabelTable s'
  signature : s'.workspace.builder.signature = s.workspace.builder.signature
  current : s'.workspace.builder.current = s.workspace.builder.current
  arena : s'.workspace.arena = s.workspace.arena
  scope : s'.scope = s.scope
  grows : s.workspace.builder.valueTypes <+: s'.workspace.builder.valueTypes
  blocks : s.workspace.builder.blocks <+: s'.workspace.builder.blocks
  others : ∀ l, Source.findLabel l os = none → s'.labels.lookup l = s.labels.lookup l
  placed : ∀ l params rest, Source.findLabel l os = some (params, rest) → ∃ id blk,
    s'.labels.lookup l = some id ∧ s'.workspace.builder.block? id = some blk ∧
    s'.workspace.builder.draft.HasTypes blk.params (params.map Prod.snd)

theorem block?_of_prefix {b b' : Builder} {blk : OpenBlock} (h : b.blocks <+: b'.blocks)
    (hblk : b.block? id = some blk) : b'.block? id = some blk := by
  obtain ⟨more, hmore⟩ := h
  rw [Builder.block?, ← hmore, List.getElem?_append_left (lt_length_of_block? hblk)]
  exact hblk

theorem LabelsDeclared.of_label {params : List (Var × Ty)} {rest : List Op} {s' : LowerState}
    (hnew : l ∉ placedLabels rest)
    (h : LabelsDeclared rest (s.declared l (params.map Prod.snd)) s') :
    LabelsDeclared (.label l params :: rest) s s' := by
  refine ⟨h.table, h.signature, h.current, h.arena, h.scope,
    (List.prefix_append _ _).trans h.grows, (List.prefix_append _ _).trans h.blocks, ?_, ?_⟩
  · intro m hm
    rw [Source.findLabel] at hm
    split at hm
    · simp at hm
    · rename_i hne
      rw [h.others m hm, lookup_declared, if_neg (Ne.symm hne)]
  · intro m params' after hm
    rw [Source.findLabel] at hm
    split at hm
    · rename_i heq
      subst heq
      obtain ⟨rfl, rfl⟩ : params = params' ∧ rest = after := by simpa using hm
      have hlookup := h.others l (findLabel_eq_none_iff.mpr hnew)
      rw [lookup_declared, if_pos rfl] at hlookup
      have hblk := block?_declared (s := s) l (params.map Prod.snd)
        ⟨s.workspace.builder.blocks.length⟩
      rw [if_pos rfl] at hblk
      have htyped : (s.declared l (params.map Prod.snd)).workspace.builder.draft.HasTypes
          (s.workspace.builder.fresh (params.map Prod.snd)) (params.map Prod.snd) :=
        Builder.hasTypes_numbered rfl
      exact ⟨_, _, hlookup, block?_of_prefix h.blocks hblk,
        Builder.hasTypes_of_grows h.grows htyped⟩
    · exact h.placed m params' after hm

end LowerState

namespace Lower

variable {src : Source} {s : LowerState} {c : LowerContext} {opIndex : Nat}

theorem exec_createBlock (types : List Ty) :
    (build (Build.createBlock types)).exec c s =
      .ok (⟨s.workspace.builder.blocks.length⟩, s.built (s.workspace.builder.addBlock types)) := rfl

theorem nodup_label_iff {l : Label} {params : List (Var × Ty)} {rest : List Op}
    (types : List Ty) :
    ((placedLabels (.label l params :: rest)).Nodup ∧
      ∀ m ∈ placedLabels (.label l params :: rest), s.labels.lookup m = none) ↔
      ¬ (s.labels.lookup l).isSome = true ∧ (placedLabels rest).Nodup ∧
        ∀ m ∈ placedLabels rest, (s.declared l types).labels.lookup m = none := by
  rw [placedLabels_label, List.nodup_cons, List.forall_mem_cons, Option.not_isSome_iff_eq_none]
  simp only [lookup_declared]
  constructor
  · rintro ⟨⟨hl, hnodup⟩, hnone, hall⟩
    refine ⟨hnone, hnodup, fun m hm => ?_⟩
    have hne : m ≠ l := fun heq => hl (heq ▸ hm)
    rw [if_neg hne, hall m hm]
  · rintro ⟨hnone, hnodup, hall⟩
    -- a second place of the label would find it declared
    have hl : l ∉ placedLabels rest := fun hmem => by simpa using hall l hmem
    refine ⟨⟨hl, hnodup⟩, hnone, fun m hm => ?_⟩
    have hne : m ≠ l := fun heq => hl (heq ▸ hm)
    have hlookup := hall m hm
    rwa [if_neg hne] at hlookup

theorem declareLabels_decides {os : List Op} (ht : LabelTable s) :
    Decides ((declareLabels opIndex os).exec c s)
      ((placedLabels os).Nodup ∧ ∀ l ∈ placedLabels os, s.labels.lookup l = none)
      fun _ s' => LabelsDeclared os s s' := by
  induction os generalizing s opIndex with
  | nil =>
      refine .ok (by simp [placedLabels]) ⟨ht, rfl, rfl, rfl, rfl, List.prefix_refl _,
        List.prefix_refl _, fun _ _ => rfl, ?_⟩
      intro l params rest hfound
      simp [Source.findLabel] at hfound
  | cons o rest ih =>
      cases o with
      | label l params =>
          rw [declareLabels, exec_bind, exec_get, ok_bind]
          refine (Decides.guard ?_ fun hl => ?_).congr
            (nodup_label_iff (params.map Prod.snd)).symm
          · trivial
          · have hl := Option.not_isSome_iff_eq_none.mp hl
            rw [exec_bind, exec_createBlock, ok_bind, exec_bind, exec_modify, ok_bind]
            refine (ih (ht.declared l hl _)).mono ?_
            intro _ s' hrest hdeclared
            refine .of_label ?_ hdeclared
            intro hmem
            have hlookup := hrest.2 l hmem
            simp [lookup_declared] at hlookup
      | _ =>
          refine (ih ht).mono fun _ s' _ h => ?_
          exact ⟨h.table, h.signature, h.current, h.arena, h.scope, h.grows, h.blocks, h.others,
            h.placed⟩

theorem exec_defineParams {b : Builder} {vars : List Var} {values : List ValueId}
    {types : List Ty} {position : Nat} (htypes : b.draft.HasTypes values types)
    (hb : s.workspace.builder = b) :
    (defineParams position (vars.zip values)).exec c s =
      (defineAll 0 .param position ((vars.zip types).zip values)).exec c s := by
  induction htypes generalizing vars s position with
  | nil =>
      rw [List.zip_nil_right, List.zip_nil_right]
      rfl
  | @cons value ty values types hvalue _ ih =>
      cases vars with
      | nil => rfl
      | cons v vars =>
          simp only [List.zip_cons_cons, defineParams, defineAll, exec_bind,
            typeOf_eq (hb ▸ hvalue), ok_bind, exec_bind_handle, exec_define]
          split
          · rfl
          · exact ih hb

theorem zip_params (src : Source) : src.paramVars.zip src.paramTypes = src.params := by
  rw [Source.paramVars, Source.paramTypes, List.zip_map', List.map_id']

theorem bindEntry_decides {blk : OpenBlock} (hblk : s.workspace.builder.block? .entry = some blk)
    (hparams : s.workspace.builder.draft.HasTypes blk.params src.paramTypes)
    (ht : Tracks (.ofParams []) s) :
    Decides ((bindEntry src.paramVars).exec c s) src.paramVars.Nodup
      fun _ s' => Brought (.ofParams []) src.params blk.params true s s' := by
  have hentry : s.workspace.builder.entryParams = blk.params := by
    have hhead : s.workspace.builder.blocks.head? = some blk := by
      rw [List.head?_eq_getElem?]
      exact hblk
    rw [Builder.entryParams, hhead]
    rfl
  have hlen : blk.params.length = src.paramVars.length := by
    rw [hparams.length_eq, Source.paramTypes, Source.paramVars, List.length_map, List.length_map]
  have hlacks : (Ledger.ofParams []).Lacks src.params ↔ src.paramVars.Nodup :=
    ⟨fun h => h.distinct, fun h => ⟨by simp [Ledger.ofParams], h⟩⟩
  have htyped := List.forall₂_map_right_iff.mp hparams
  have hstored : ∀ i, (Storage.param i).isMaterialized = true := fun _ => rfl
  rw [bindEntry, exec_bind, exec_builder, ok_bind, hentry, exec_bind]
  refine ((checkArity_decides _ _ _).bind ?_).congr (and_iff_right hlen)
  rintro - s' - rfl
  rw [exec_defineParams hparams rfl, zip_params]
  exact (defineAll_decides hstored htyped.flip rfl ht).congr hlacks

end Lower

namespace LowerState

/-- The entry segment of a source is open, and its labels are declared. -/
structure Begun (src : Source) (blk : OpenBlock) (s : LowerState) : Prop where
  ready : Ready src src.ops s
  signature : s.workspace.builder.signature = src.signature
  isOpen : s.workspace.builder.OpenAt .entry blk
  instructions : blk.instructions = []
  typed : s.workspace.builder.draft.HasTypes blk.params src.paramTypes
  values : s.value? = Assignment.set (fun _ => none) src.paramVars blk.params
  covered : ∀ id blk, s.workspace.builder.block? id = some blk →
    id = .entry ∨ ∃ l, s.labels.lookup l = some id
  notEntry : ∀ l id, s.labels.lookup l = some id → id ≠ .entry

variable {src : Source} {s s' : LowerState} {blk : OpenBlock}

theorem lt_of_mem_params {b : Builder} {id : BlockId} {x : ValueId} (hn : b.Numbered)
    (hblk : b.block? id = some blk) (hx : x ∈ blk.params) : x.index < b.valueTypes.length := by
  refine hn.mem_iff.mp (List.mem_flatMap.mpr ⟨blk, List.mem_of_getElem? hblk, ?_⟩)
  exact List.mem_append_left _ hx

theorem labelTypes?_eq_none_iff {l : Label} :
    src.labelTypes? l = none ↔ l ∉ placedLabels src.ops := by
  rw [Source.labelTypes?, Option.map_eq_none_iff, findLabel_eq_none_iff]

theorem Begun.exists_terminator {id : BlockId} {blk' : OpenBlock} (hbegun : Begun src blk s)
    (h : Lowered src src.ops s s') (hblk' : s'.workspace.builder.block? id = some blk') :
    (id = .entry ∨ ∃ l, s.labels.lookup l = some id) ∧ blk'.terminator.isSome := by
  obtain ⟨blk₀, hblk₀⟩ := h.keeps.exists_block? hblk'
  have hcovered := hbegun.covered id blk₀ hblk₀
  refine ⟨hcovered, ?_⟩
  rcases hcovered with rfl | ⟨l, hl⟩
  · obtain ⟨is, t, hdone, -⟩ := h.opened .entry blk hbegun.isOpen
    obtain rfl := Option.some.inj (hblk'.symm.trans hdone)
    rfl
  · cases hfound : Source.findLabel l src.ops with
    | none =>
        have hmissing := hbegun.ready.declared.missing l
          (labelTypes?_eq_none_iff.mpr (findLabel_eq_none_iff.mp hfound))
        simp [hl] at hmissing
    | some place =>
        obtain ⟨id', _, _, is, t, hlookup, -, hdone, -⟩ := h.placed l place.1 place.2 hfound
        obtain rfl : id = id' := Option.some.inj (hl.symm.trans hlookup)
        obtain rfl := Option.some.inj (hblk'.symm.trans hdone)
        rfl

theorem Begun.translates (hbegun : Begun src blk s) (h : Lowered src src.ops s s') :
    Translates src s.labels s'.workspace.builder.draft := by
  have hnumbered := h.keeps.isNumbered hbegun.ready.isNumbered
  refine ⟨h.keeps.signature.trans hbegun.signature, Builder.draft_idsArePlaces, ?_, ?_, ?_,
    hbegun.ready.injective, ?_, ?_, ?_⟩
  · rw [Builder.definitions_draft]
    exact hnumbered.nodup
  · intro v hv
    rw [Builder.definitions_draft, hnumbered.mem_iff] at hv
    exact ⟨_, List.getElem?_eq_getElem hv⟩
  · intro l hl
    exact hbegun.ready.declared.missing l (labelTypes?_eq_none_iff.mpr hl)
  · intro b hb
    obtain ⟨place, hplace, rfl⟩ := List.mem_mapIdx.mp hb
    have hblk : s'.workspace.builder.block? ⟨place⟩ = some s'.workspace.builder.blocks[place] :=
      List.getElem?_eq_getElem hplace
    exact (hbegun.exists_terminator h hblk).1
  · obtain ⟨is, t, hblk, hcoded⟩ := h.opened .entry blk hbegun.isOpen
    rw [hbegun.instructions, List.nil_append] at hblk
    rw [hbegun.values] at hcoded
    refine ⟨⟨.entry, blk.params, is, t⟩, by rw [Builder.block?_draft, hblk]; rfl, ?_, _, ?_,
      hcoded⟩
    · exact Builder.hasTypes_of_grows h.keeps.grows hbegun.typed
    · intro x hx
      exact lt_of_mem_params hbegun.ready.isNumbered hbegun.isOpen.block hx
  · intro l params rest hfound
    obtain ⟨id, blk', next, is, t, hlookup, hblk', hdone, hle, hcoded⟩ :=
      h.placed l params rest hfound
    refine ⟨id, ⟨id, blk'.params, is, t⟩, hbegun.notEntry l id hlookup, hlookup,
      by rw [Builder.block?_draft, hdone]; rfl, ?_, next, ?_, hcoded⟩
    · have htypes : src.labelTypes? l = some (params.map Prod.snd) := by
        simp [Source.labelTypes?, hfound]
      obtain ⟨id', blk'', hlookup', hblk'', hparams⟩ :=
        hbegun.ready.declared.placed l _ htypes
      obtain rfl : id = id' := Option.some.inj (hlookup.symm.trans hlookup')
      obtain rfl : blk' = blk'' := Option.some.inj (hblk'.symm.trans hblk'')
      exact Builder.hasTypes_of_grows h.keeps.grows hparams
    · intro x hx
      exact (lt_of_mem_params hbegun.ready.isNumbered hblk' hx).trans_le hle

/-- The state in which the lowering of a source begins. -/
def initial (src : Source) : LowerState :=
  { workspace := ⟨.ofSignature src.signature, {}⟩ }

/-- The entry block before its code is lowered. -/
def entryBlock (src : Source) : OpenBlock :=
  ⟨numbered 0 src.paramTypes.length, [], none⟩

theorem block?_initial : (initial src).workspace.builder.block? .entry = some (entryBlock src) :=
  rfl

theorem labelTable_initial (src : Source) : LabelTable (initial src) := by
  refine ⟨by simp [initial, Builder.ofSignature, Builder.addBlock], ?_, ?_, ?_, ?_⟩
  · intro l l' id h
    simp [initial] at h
  · intro l id h
    simp [initial] at h
  · intro id blk hblk
    have hlt := lt_length_of_block? hblk
    simp only [initial, Builder.ofSignature, Builder.addBlock, List.nil_append,
      List.length_singleton] at hlt
    exact .inl (congrArg BlockId.mk (Nat.lt_one_iff.mp hlt))
  · simp [Builder.Numbered, initial, Builder.ofSignature, Builder.addBlock, OpenBlock.definitions,
      Builder.fresh_eq_numbered]

theorem typed_initial : (initial src).workspace.builder.draft.HasTypes (entryBlock src).params
    src.paramTypes := by
  have htable : (initial src).workspace.builder.valueTypes = [] ++ src.paramTypes := rfl
  exact Builder.hasTypes_numbered htable

theorem LabelsDeclared.ready (h : LabelsDeclared src.ops (initial src) s)
    (hdistinct : (placedLabels src.ops).Nodup) : Ready src src.ops s := by
  refine ⟨⟨?_, ?_, ?_⟩, h.table.isNumbered, fun _ _ hfound => hfound, hdistinct, ?_,
    h.table.injective⟩
  · intro l types htypes
    obtain ⟨⟨params, rest⟩, hfound, rfl⟩ := Option.map_eq_some_iff.mp htypes
    exact h.placed l params rest hfound
  · intro l hnone
    exact h.others l (Option.map_eq_none_iff.mp hnone)
  · exact congrArg Signature.returns h.signature
  · intro l hl
    cases hfound : Source.findLabel l src.ops with
    | none => exact absurd hl (findLabel_eq_none_iff.mp hfound)
    | some place =>
        obtain ⟨id, blk, hlookup, -⟩ := h.placed l place.1 place.2 hfound
        obtain ⟨-, params, hblk⟩ := h.table.empty l id hlookup
        exact ⟨id, _, hlookup, hblk, rfl, rfl⟩

theorem Ready.brought {g : Ledger} {defs : List (Var × Ty)} {values : List ValueId} {stored : Bool}
    {os : List Op} {s₁ : LowerState} (hready : Ready src os s)
    (h : Brought g defs values stored s s₁) : Ready src os s₁ := by
  obtain ⟨⟨hplaced, hmissing, hreturns⟩, hnumbered, hfound, hdistinct, hempty, hinjective⟩ := hready
  rw [← h.builder] at hplaced hreturns hnumbered hempty
  rw [← h.labels] at hplaced hmissing hempty hinjective
  exact ⟨⟨hplaced, hmissing, hreturns⟩, hnumbered, hfound, hdistinct, hempty, hinjective⟩

theorem LabelsDeclared.tracks (h : LabelsDeclared src.ops (initial src) s) :
    Tracks (.ofParams []) s ∧ s.value? = fun _ => none := by
  have hscope : s.scope = [] := h.scope
  refine ⟨⟨⟨by simp [hscope], by simp [hscope]⟩, ?_, ?_, ?_, ?_⟩, ?_⟩
  all_goals simp [Ledger.ofParams, env, value?, hscope, funext_iff]

theorem LabelsDeclared.begun {s₁ : LowerState} (h : LabelsDeclared src.ops (initial src) s)
    (hdistinct : (placedLabels src.ops).Nodup)
    (hbrought : Brought (.ofParams []) src.params (entryBlock src).params true s s₁) :
    Begun src (entryBlock src) s₁ where
  ready := (h.ready hdistinct).brought hbrought
  signature := by rw [hbrought.builder, h.signature]; rfl
  isOpen := by
    rw [hbrought.builder]
    exact ⟨h.current, block?_of_prefix h.blocks block?_initial, rfl⟩
  instructions := rfl
  typed := by
    rw [hbrought.builder]
    exact Builder.hasTypes_of_grows h.grows typed_initial
  values := by
    rw [hbrought.values, h.tracks.2]
    rfl
  covered := by
    rw [hbrought.builder, hbrought.labels]
    exact h.table.covered
  notEntry := by
    rw [hbrought.labels]
    exact fun l id hl => (h.table.empty l id hl).1

theorem Begun.active (hbegun : Begun src blk s) (ht : Tracks (.ofParams src.params) s) :
    Active (some (.ofParams src.params)) src.ops s :=
  ⟨.entry, blk, hbegun.isOpen, ht, fun l _ hl => hbegun.notEntry l .entry hl rfl⟩

end LowerState

namespace Lower

variable {c : LowerContext} {s : LowerState} {src : Source}

/-- What a body ends with: the check that no segment is open, and the summary. -/
theorem finishes_summary (c : LowerContext) (opIndex : Nat) (summary : LowerState → Summary) :
    Finishes c (do
      let s ← get
      if s.workspace.builder.current.isSome then malformed opIndex .unterminatedBlock
      return summary s) := by
  intro s
  rw [exec_bind, exec_get, ok_bind]
  refine (Decides.guard (p := True) ?_ fun _ => ?_).congr (by simp)
  · trivial
  · rw [exec_pure]
    exact .ok trivial rfl

/-- A body is lowered exactly under these conditions, to a translation of the source whose
blocks are all terminated. -/
theorem body_decides (src : Source) (hregistry : c.registry = .default) :
    Decides ((body src.paramVars src.ops).exec c (initial src)) src.Lowerable
      fun _ s' => (∃ labels, Translates src labels s'.workspace.builder.draft) ∧
        ∀ blk ∈ s'.workspace.builder.blocks, blk.terminator.isSome := by
  have hcond : ((placedLabels src.ops).Nodup ∧ src.paramVars.Nodup ∧
      src.Accepts (some (.ofParams src.params)) src.ops) ↔ src.Lowerable :=
    ⟨fun h => ⟨h.1, h.2.1, h.2.2⟩, fun h => ⟨h.labels, h.params, h.accepts⟩⟩
  have hlabels : Decides ((declareLabels 0 src.ops).exec c (initial src))
      (placedLabels src.ops).Nodup fun _ s' => LabelsDeclared src.ops (initial src) s' :=
    (declareLabels_decides (labelTable_initial src)).congr (by simp [initial])
  rw [body, exec_bind]
  refine (hlabels.bind ?_).congr hcond
  intro _ s hdistinct hdeclared
  have hblk : s.workspace.builder.block? .entry = some (entryBlock src) :=
    block?_of_prefix hdeclared.blocks block?_initial
  have htyped : s.workspace.builder.draft.HasTypes (entryBlock src).params src.paramTypes :=
    Builder.hasTypes_of_grows hdeclared.grows typed_initial
  rw [exec_bind]
  refine (bindEntry_decides hblk htyped hdeclared.tracks.1).bind ?_
  intro _ s₁ _ hbrought
  have hbegun := hdeclared.begun hdistinct hbrought
  have ht : Tracks (.ofParams src.params) s₁ := by
    simpa [Ledger.define, Ledger.ofParams] using hbrought.tracks
  refine (ops_decides hregistry (finishes_summary c _ _) hbegun.ready (hbegun.active ht)).mono ?_
  intro _ s' _ hlowered
  refine ⟨⟨s₁.labels, hbegun.translates hlowered⟩, ?_⟩
  intro blk hblk
  obtain ⟨place, hplace⟩ := List.mem_iff_getElem?.mp hblk
  have hget : s'.workspace.builder.block? ⟨place⟩ = some blk := hplace
  exact (hbegun.exists_terminator hlowered hget).2

end Lower

end FieldSSA
