import FieldSSA.Proofs.LowerBody

namespace FieldSSA

section Translation

variable {src : Source} {labels : List (Label × BlockId)} {f : Function}

theorem Translates.labelsPlaced (h : Translates src labels f) : LabelsPlaced src labels f := by
  intro l id types hlookup htypes
  obtain ⟨⟨params, rest⟩, hfound, rfl⟩ := Option.map_eq_some_iff.mp htypes
  obtain ⟨id', b, -, hlookup', hb, hcoded⟩ := h.placed l params rest hfound
  obtain rfl : id = id' := Option.some.inj (hlookup.symm.trans hlookup')
  exact ⟨b, hb, hcoded.typed⟩

theorem mem_of_set_eq_some {vars : List Var} {xs : List ValueId} {v : Var} {x : ValueId}
    (h : Assignment.set (fun _ => none) vars xs v = some x) : x ∈ xs := by
  rcases Assignment.mem_zip_of_set h with hzip | hnone
  · exact (List.of_mem_zip hzip).2
  · simp at hnone

/-- Where segments begin: the entry with the parameters of the source, and the labels. -/
inductive Source.Begins (src : Source) : List (Var × Ty) → List Op → Prop
  | entry : src.Begins src.params src.ops
  | label {l : Label} {params : List (Var × Ty)} {rest : List Op} :
      Source.findLabel l src.ops = some (params, rest) → src.Begins params rest

theorem Translates.exists_blockCoded (h : Translates src labels f) {b : Block}
    (hb : b ∈ f.blocks) :
    ∃ params os, src.Begins params os ∧ BlockCoded src labels f params os b := by
  have hget := h.ids.block?_self hb
  rcases h.covered b hb with hentry | ⟨l, hl⟩
  · obtain ⟨b', hb', hcoded⟩ := h.entry
    rw [hentry] at hget
    obtain rfl : b = b' := Option.some.inj (hget.symm.trans hb')
    exact ⟨_, _, .entry, hcoded⟩
  · cases hfound : Source.findLabel l src.ops with
    | none => simp [h.missing l (findLabel_eq_none_iff.mp hfound)] at hl
    | some place =>
        obtain ⟨id, b', -, hlookup, hb', hcoded⟩ := h.placed l place.1 place.2 hfound
        obtain rfl : b.id = id := Option.some.inj (hl.symm.trans hlookup)
        obtain rfl : b = b' := Option.some.inj (hget.symm.trans hb')
        exact ⟨_, _, .label hfound, hcoded⟩

theorem Translates.blockTyped (h : Translates src labels f) {b : Block} (hb : b ∈ f.blocks) :
    f.BlockTyped b := by
  obtain ⟨params, os, -, -, next, -, hcoded⟩ := h.exists_blockCoded hb
  have hreturns : f.signature.returns = src.returns := by
    rw [h.signature]
    rfl
  obtain ⟨hinstructions, hoperands, hterminator⟩ :=
    hcoded.typed h.labelsPlaced hreturns fun _ _ => mem_of_set_eq_some
  refine ⟨fun v hv => h.typed v (List.mem_flatMap.mpr ⟨b, hb, hv⟩), hinstructions, hoperands,
    hterminator⟩

theorem Translates.exists_entry (h : Translates src labels f) : ∃ b, f.entry? = some b ∧
    f.block? .entry = some b ∧ BlockCoded src labels f src.params src.ops b := by
  obtain ⟨b, hb, hcoded⟩ := h.entry
  refine ⟨b, ?_, hb, hcoded⟩
  simp only [Function.block?, Option.filter_eq_some_iff] at hb
  rw [Function.entry?, List.head?_eq_getElem?]
  exact hb.1

/-- The only errors in a translation are blocks that the entry does not reach. -/
theorem Translates.verify_errors (h : Translates src labels f) :
    f.verify.errors = f.unreachable.map .unreachableBlock := by
  obtain ⟨b, hentry, hb, hcoded⟩ := h.exists_entry
  have hmem : b ∈ f.blocks := (Function.mem_blocks_of_block? hb).1
  have hparams : f.HasTypes b.params f.signature.params := by
    rw [h.signature]
    exact hcoded.typed
  have hcheckEntry : f.checkEntry b = [] := by
    refine (f.checkEntry_eq_nil_iff fun v hv => ?_).mpr hparams
    exact (h.blockTyped hmem).definitions v (List.mem_append_left _ hv)
  have hcheckBlocks : f.checkBlocks [] f.blocks = [] :=
    (f.checkBlocks_eq_nil_iff [] f.blocks).mpr ⟨fun b hb => h.blockTyped hb, h.definitions, by simp⟩
  simp [Function.verify, hentry, hcheckEntry, hcheckBlocks]

end Translation

namespace Source

variable {s : Source} {c : Config} {registry : Registry}

/-- The end of emission: the function is sealed, and verified if this is asked for. -/
def sealWith (c : Config) (name : String) (b : Builder) : Except EmitError Function :=
  Except.mapError (.ir name)
    (if c.verify then b.finish else b.sealed >>= Emitter.checkReachable name)

theorem exists_cause_of_sealWith {name : String} {b : Builder} {e : EmitError}
    (h : sealWith c name b = .error e) : ∃ cause, e = .ir name cause := by
  rw [sealWith] at h
  generalize (if c.verify = true then b.finish
    else b.sealed >>= Emitter.checkReachable name) = sealing at h
  cases sealing with
  | error cause => exact ⟨cause, (Except.error.inj h).symm⟩
  | ok f => cases h

theorem declare_eq (hc : c.validate = .ok ()) :
    Emitter.declare { registry, config := c } s.signature =
      .ok { registry, config := c, name := s.name, state := .declaring s.signature } := by
  simp only [Emitter.declare, hc, Except.mapError]
  rfl

theorem build_eq (e : Emitter) (hstate : e.state = .declaring s.signature) :
    e.build s.paramVars s.ops =
      ((Lower.body s.paramVars s.ops).exec ⟨e.name, e.registry⟩ (LowerState.initial s) >>= fun p =>
        .ok { e with state := .building p.2.workspace.builder }) := by
  simp only [Emitter.build, hstate, lowerBody, Lower.exec, ReaderT.run, LowerState.initial]
  rcases Lower.body s.paramVars s.ops ⟨e.name, e.registry⟩
    { workspace := ⟨.ofSignature s.signature, {}⟩ } with ⟨_ | summary, s'⟩
  · rfl
  · rfl

theorem finish_eq (e : Emitter) {b : Builder} (hstate : e.state = .building b) :
    (Prod.fst <$> (e.finish >>= Emitter.result)) = sealWith e.config e.name b := by
  simp only [Emitter.finish, hstate, sealWith]
  cases e.config.verify with
  | true =>
      simp only [if_true, Builder.finish]
      cases b.finishWithReport <;> rfl
  | false =>
      simp only [Bool.false_eq_true, if_false]
      cases b.sealed with
      | error err => rfl
      | ok f =>
          rw [ok_bind, ok_bind]
          cases Emitter.checkReachable e.name f <;> rfl

theorem emit_eq (hc : c.validate = .ok ()) :
    s.emit registry c = ((Lower.body s.paramVars s.ops).exec ⟨s.name, registry⟩
      (LowerState.initial s) >>= fun p => sealWith c s.name p.2.workspace.builder) := by
  rw [emit, emitReporting, declare_eq hc, ok_bind, build_eq _ rfl]
  cases (Lower.body s.paramVars s.ops).exec ⟨s.name, registry⟩ (LowerState.initial s) with
  | error e => rfl
  | ok p => exact finish_eq _ rfl

/-- A translation is sealed if all of its blocks are reachable, verified or not. -/
theorem sealWith_eq {labels : List (Label × BlockId)} {b : Builder}
    (h : Translates s labels b.draft) (hterminated : ∀ blk ∈ b.blocks, blk.terminator.isSome) :
    sealWith c s.name b = (Emitter.checkReachable s.name b.draft).mapError (.ir s.name) := by
  have hname : b.draft.name = s.name := by
    rw [Function.name, h.signature]
    rfl
  rw [sealWith, Builder.finish, Builder.finishWithReport, Builder.sealed_eq_draft hterminated,
    ok_bind, ok_bind]
  cases c.verify with
  | false => rfl
  | true =>
      simp only [if_true, Function.verified, Report.isValid, h.verify_errors, hname,
        Emitter.checkReachable]
      cases b.draft.unreachable <;> rfl

theorem checkReachable_of_eq_nil {f : Function} (h : f.unreachable = []) (name : String) :
    (Emitter.checkReachable name f).mapError (EmitError.ir name) = .ok f := by
  simp [Emitter.checkReachable, h, Except.mapError]

theorem checkReachable_of_ne_nil {f : Function} (h : f.unreachable ≠ []) (name : String) :
    (Emitter.checkReachable name f).mapError (EmitError.ir name) =
      .error (.ir name (.verification name (f.unreachable.map .unreachableBlock))) := by
  simp [Emitter.checkReachable, h, Except.mapError]

/-- Emission fails with a defect of the source, or gives a translation if every block of it is
reachable. The configuration makes no difference. -/
theorem emit_cases (s : Source) :
    (¬ s.Lowerable ∧ ∃ e, e.IsDefect ∧
      ∀ c, c.validate = .ok () → s.emit .default c = .error e) ∨
    (s.Lowerable ∧ ∃ f labels, Translates s labels f ∧
      ((f.unreachable = [] ∧ ∀ c, c.validate = .ok () → s.emit .default c = .ok f) ∨
        (f.unreachable ≠ [] ∧ ∀ c, c.validate = .ok () → s.emit .default c =
          .error (.ir s.name (.verification s.name (f.unreachable.map .unreachableBlock)))))) := by
  have hbody := Lower.body_decides s (c := ⟨s.name, .default⟩) rfl
  by_cases hlowerable : s.Lowerable
  · obtain ⟨summary, s', hrun, ⟨labels, htranslates⟩, hterminated⟩ := hbody.result hlowerable
    have hemit : ∀ c, c.validate = .ok () → s.emit .default c =
        (Emitter.checkReachable s.name s'.workspace.builder.draft).mapError (.ir s.name) := by
      intro c hc
      rw [emit_eq hc, hrun, ok_bind, sealWith_eq htranslates hterminated]
    refine .inr ⟨hlowerable, s'.workspace.builder.draft, labels, htranslates, ?_⟩
    by_cases hreached : s'.workspace.builder.draft.unreachable = []
    · refine .inl ⟨hreached, fun c hc => ?_⟩
      rw [hemit c hc, checkReachable_of_eq_nil hreached]
    · refine .inr ⟨hreached, fun c hc => ?_⟩
      rw [hemit c hc, checkReachable_of_ne_nil hreached]
  · obtain ⟨e, hrun, hdefect⟩ := hbody.defect hlowerable
    refine .inl ⟨hlowerable, e, hdefect, ?_⟩
    intro c hc
    rw [emit_eq hc, hrun, error_bind]

theorem exists_translates_of_emit {f : Function} (hc : c.validate = .ok ())
    (h : s.emit .default c = .ok f) :
    s.Lowerable ∧ f.unreachable = [] ∧ ∃ labels, Translates s labels f := by
  rcases emit_cases s with ⟨-, e, -, hemit⟩ | ⟨hlowerable, g, labels, htranslates,
    ⟨hreached, hemit⟩ | ⟨-, hemit⟩⟩
  · simp [hemit c hc] at h
  · obtain rfl : g = f := by simpa [hemit c hc] using h
    exact ⟨hlowerable, hreached, labels, htranslates⟩
  · simp [hemit c hc] at h

/-- Emission gives the same outcome with and without verification. What it emits has no errors,
and what it refuses has a defect or blocks that cannot be reached. -/
theorem emit_correct_by_construction (s : Source) (c : Config) (hc : c.validate = .ok ()) :
    s.emit .default { c with verify := true } = s.emit .default { c with verify := false } ∧
      (∀ f, s.emit .default c = .ok f → f.verify.errors = []) ∧
      ∀ e, s.emit .default c = .error e → e.IsDefect ∨
        ∃ blocks : List BlockId,
          e = .ir s.name (.verification s.name (blocks.map .unreachableBlock)) := by
  have hverified : ∀ f, s.emit .default c = .ok f → f.verify.errors = [] := by
    intro f hf
    obtain ⟨-, hreached, labels, htranslates⟩ := exists_translates_of_emit hc hf
    rw [htranslates.verify_errors, hreached, List.map_nil]
  have htrue : ({ c with verify := true } : Config).validate = .ok () := hc
  have hfalse : ({ c with verify := false } : Config).validate = .ok () := hc
  rcases emit_cases s with ⟨-, e, hdefect, hemit⟩ | ⟨-, f, labels, -,
    ⟨-, hemit⟩ | ⟨-, hemit⟩⟩
  · refine ⟨(hemit _ htrue).trans (hemit _ hfalse).symm, hverified, ?_⟩
    intro e' he'
    obtain rfl : e = e' := by simpa [hemit c hc] using he'
    exact .inl hdefect
  · refine ⟨(hemit _ htrue).trans (hemit _ hfalse).symm, hverified, ?_⟩
    intro e he
    simp [hemit c hc] at he
  · refine ⟨(hemit _ htrue).trans (hemit _ hfalse).symm, hverified, ?_⟩
    intro e he
    rw [hemit c hc] at he
    exact .inr ⟨f.unreachable, (Except.error.inj he).symm⟩

/-- Euclid's algorithm: a loop that divides until the remainder is zero. -/
def euclid : Source where
  name := "gcd"
  params := [(⟨0⟩, .u32), (⟨1⟩, .u32)]
  returns := [.u32]
  ops :=
    [.branch ⟨0⟩ [⟨0⟩, ⟨1⟩],
      .label ⟨0⟩ [(⟨2⟩, .u32), (⟨3⟩, .u32)],
      .dup .u32 ⟨3⟩ ⟨4⟩ ⟨5⟩,
      .call "u32_safe_divmod" [⟨2⟩, ⟨4⟩] [⟨6⟩, ⟨7⟩],
      .dup .u32 ⟨7⟩ ⟨8⟩ ⟨9⟩,
      .call "u32_is_zero" [⟨8⟩] [⟨10⟩],
      .storeTemp .u32 ⟨9⟩ ⟨11⟩,
      .dup .u32 ⟨5⟩ ⟨12⟩ ⟨13⟩,
      .condBranch ⟨10⟩ ⟨1⟩ [⟨12⟩] ⟨0⟩ [⟨13⟩, ⟨11⟩],
      .label ⟨1⟩ [(⟨14⟩, .u32)],
      .ret [⟨14⟩]]

theorem euclid_emit_correct :
    ({} : Config).validate = .ok () ∧
      euclid.emit .default { verify := true } = euclid.emit .default { verify := false } ∧
      (∀ f, euclid.emit .default {} = .ok f → f.verify.errors = []) ∧
      ∀ e, euclid.emit .default {} = .error e → e.IsDefect ∨
        ∃ blocks : List BlockId,
          e = .ir "gcd" (.verification "gcd" (blocks.map .unreachableBlock)) :=
  ⟨rfl, emit_correct_by_construction euclid {} rfl⟩

end Source

end FieldSSA
