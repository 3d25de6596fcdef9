import FieldSSA.Proofs.Effects

namespace FieldSSA

/-- The types that an instruction gives to its results: that of the constant, truth values for a
comparison, and those of the contract for a call. -/
def Instruction.resultTypes : Instruction → List Ty
  | const _ imm => [imm.ty]
  | cmp _ _ _ _ => [.bool]
  | call callee _ _ => callee.results

theorem mem_modify_cases {α : Type} {f : α → α} {as : List α} {i : Nat} {a : α}
    (h : a ∈ as.modify i f) : a ∈ as ∨ ∃ old, as[i]? = some old ∧ a = f old := by
  obtain ⟨place, hplace⟩ := List.mem_iff_getElem?.mp h
  rw [List.getElem?_modify] at hplace
  obtain ⟨old, hold, rfl⟩ := Option.map_eq_some_iff.mp hplace
  by_cases hi : i = place
  · subst hi
    exact .inr ⟨old, hold, by simp⟩
  · simpa [hi] using .inl (List.mem_of_getElem? hold)

namespace Builder

variable {b b' : Builder} {declared : List (List Ty)}

theorem Appends.resultTypes_eq {i : Instruction} {types : List Ty} (h : b.Appends i types) :
    i.resultTypes = types := by
  cases h <;> rfl

/-- A step does not touch a block that has its terminator. -/
theorem Step.block?_of_terminated (h : b.Step b') {id : BlockId} {blk : OpenBlock}
    (hblk : b.block? id = some blk) (hterminated : blk.terminator.isSome) :
    b'.block? id = some blk := by
  -- instructions and terminators go into the open block, which has no terminator
  have hother {open' : BlockId} {blk' : OpenBlock} (hopen : b.OpenAt open' blk') : id ≠ open' := by
    rintro rfl
    obtain rfl : blk' = blk := Option.some.inj (hopen.block.symm.trans hblk)
    simp [hopen.terminator] at hterminated
  cases h with
  | stay => exact hblk
  | addBlock params =>
      exact (List.getElem?_append_left (List.getElem?_eq_some_iff.mp hblk).1).trans hblk
  | select _ => exact hblk
  | extend hopen _ => rw [block?_extend_of_ne (hother hopen), hblk]
  | close hopen _ => rw [block?_close_of_ne (hother hopen), hblk]

theorem block?_after_of_terminated (hb : b.Sound) {id : BlockId} {blk : OpenBlock}
    (hblk : b.block? id = some blk) (hterminated : blk.terminator.isSome)
    (calls : List BuildCall) : (b.after calls).block? id = some blk := by
  induction calls generalizing b with
  | nil => exact hblk
  | cons call rest ih =>
      have hstep := step_afterCall hb call
      exact ih (hstep.sound hb) (hstep.block?_of_terminated hblk hterminated)

/-- The table has the types that were declared for the parameters of each block and those of
every result, and branches go to blocks that were created. -/
structure Typed (b : Builder) (declared : List (List Ty)) : Prop where
  params : List.Forall₂ b.draft.HasTypes (b.blocks.map OpenBlock.params) declared
  results : ∀ blk ∈ b.blocks, ∀ i ∈ blk.instructions, b.draft.HasTypes i.results i.resultTypes
  targets : ∀ blk ∈ b.blocks, ∀ t, blk.terminator = some t →
    ∀ edge ∈ t.successors, edge.dest.index < b.blocks.length

theorem Typed.addBlock (hb : b.Typed declared) (params : List Ty) :
    (b.addBlock params).Typed (declared ++ [params]) := by
  have hgrow : b.valueTypes <+: (b.addBlock params).valueTypes := List.prefix_append _ _
  have hnew : (b.addBlock params).draft.HasTypes (b.fresh params) params := by
    rw [fresh_eq_numbered]
    exact hasTypes_numbered rfl
  refine ⟨?_, ?_, ?_⟩
  · have hold := hb.params.imp fun _ _ => hasTypes_of_grows hgrow
    simpa [Builder.addBlock] using List.rel_append hold (.cons hnew .nil)
  · intro blk hblk i hi
    rcases List.mem_append.mp hblk with hblk | hblk
    · exact hasTypes_of_grows hgrow (hb.results blk hblk i hi)
    · simp [List.mem_singleton.mp hblk] at hi
  · intro blk hblk t ht edge hedge
    rcases List.mem_append.mp hblk with hblk | hblk
    · exact Nat.lt_of_lt_of_le (hb.targets blk hblk t ht edge hedge) (by simp [Builder.addBlock])
    · simp [List.mem_singleton.mp hblk] at ht

theorem Typed.extend (hb : b.Typed declared) {id : BlockId} {i : Instruction} {types : List Ty}
    (hi : b.Appends i types) : (b.extend id [i] types).Typed declared := by
  have hgrow : b.valueTypes <+: (b.extend id [i] types).valueTypes := List.prefix_append _ _
  have hnew : (b.extend id [i] types).draft.HasTypes i.results i.resultTypes := by
    rw [hi.results_eq, hi.resultTypes_eq]
    exact hasTypes_numbered rfl
  refine ⟨?_, ?_, ?_⟩
  · rw [Builder.extend, map_params_modify (by simp)]
    exact hb.params.imp fun _ _ => hasTypes_of_grows hgrow
  · intro blk hblk j hj
    rcases mem_modify_cases hblk with hold | ⟨old, hold, rfl⟩
    · exact hasTypes_of_grows hgrow (hb.results blk hold j hj)
    · rcases List.mem_append.mp hj with hj | hj
      · exact hasTypes_of_grows hgrow (hb.results old (List.mem_of_getElem? hold) j hj)
      · rw [List.mem_singleton.mp hj]
        exact hnew
  · intro blk hblk t ht edge hedge
    rw [Builder.extend, List.length_modify]
    rcases mem_modify_cases hblk with hold | ⟨old, hold, rfl⟩
    · exact hb.targets blk hold t ht edge hedge
    · exact hb.targets old (List.mem_of_getElem? hold) t ht edge hedge

theorem Typed.close (hb : b.Typed declared) {id : BlockId} {t : Terminator}
    (ht : ∀ edge ∈ t.successors, ∃ target, b.block? edge.dest = some target) :
    (b.close id t).Typed declared := by
  refine ⟨?_, ?_, ?_⟩
  · rw [Builder.close, map_params_modify (by simp)]
    exact hb.params
  · intro blk hblk i hi
    rcases mem_modify_cases hblk with hold | ⟨old, hold, rfl⟩
    · exact hb.results blk hold i hi
    · exact hb.results old (List.mem_of_getElem? hold) i hi
  · intro blk hblk t' ht' edge hedge
    rw [Builder.close, List.length_modify]
    rcases mem_modify_cases hblk with hold | ⟨old, -, rfl⟩
    · exact hb.targets blk hold t' ht' edge hedge
    · obtain rfl : t = t' := Option.some.inj ht'
      obtain ⟨target, htarget⟩ := ht edge hedge
      exact (List.getElem?_eq_some_iff.mp htarget).1

theorem Step.typed (h : b.Step b') (hsize : b.SameSize b') (hb : b.Typed declared) :
    b'.Typed declared := by
  cases h with
  | stay => exact hb
  | addBlock params => simp [SameSize, Builder.addBlock] at hsize
  | select _ => exact ⟨hb.params, hb.results, hb.targets⟩
  | extend _ hi => exact hb.extend hi
  | close _ ht => exact hb.close ht

theorem Typed.afterCall (hsound : b.Sound) (hb : b.Typed declared) (call : BuildCall) :
    (b.afterCall call).Typed (declared ++ call.newBlock?.toList) := by
  cases hcall : call.newBlock? with
  | none =>
      rw [Option.toList_none, List.append_nil]
      exact (step_afterCall hsound call).typed (BuildCall.moves_sameSize_action hcall b) hb
  | some params =>
      cases call with
      | createBlock types =>
          obtain rfl : types = params := Option.some.inj hcall
          exact hb.addBlock types
      | _ => simp [BuildCall.newBlock?] at hcall

theorem Typed.after (hsound : b.Sound) (hb : b.Typed declared) (calls : List BuildCall) :
    (b.after calls).Typed (declared ++ calls.filterMap BuildCall.newBlock?) := by
  induction calls generalizing b declared with
  | nil =>
      rw [List.filterMap_nil, List.append_nil]
      exact hb
  | cons call rest ih =>
      have hcreated : (call :: rest).filterMap BuildCall.newBlock? =
          call.newBlock?.toList ++ rest.filterMap BuildCall.newBlock? := by
        cases hcall : call.newBlock? <;> simp [hcall]
      rw [hcreated, ← List.append_assoc]
      exact ih ((step_afterCall hsound call).sound hsound) (hb.afterCall hsound call)

theorem typed_ofSignature (signature : Signature) :
    (ofSignature signature).Typed [signature.params] := by
  have hempty : Typed ⟨signature, [], [], none⟩ [] := ⟨.nil, by simp, by simp⟩
  have hentry := hempty.addBlock signature.params
  exact ⟨hentry.params, hentry.results, hentry.targets⟩

end Builder

/-- Errors in the build-up of a function, and not in how it uses its values: a missing entry or
one with other parameters, a value that is defined again, results that are not as many as the
contract has, and branches to no block. -/
def VerifyError.IsStructural : VerifyError → Prop
  | .missingEntry | .entryParamMismatch _ _ | .redefined _ | .callResultArity _ _ _ _
  | .undefinedBlock _ _ => True
  | _ => False

namespace Function

variable {f : Function} {block : BlockId}

/-- No error of a list is structural. -/
def Clear (errors : List VerifyError) : Prop :=
  ∀ e ∈ errors, ¬ e.IsStructural

theorem clear_nil : Clear [] := by
  simp [Clear]

theorem clear_singleton {e : VerifyError} (h : ¬ e.IsStructural) : Clear [e] :=
  List.forall_mem_singleton.mpr h

theorem clear_append_iff {es es' : List VerifyError} :
    Clear (es ++ es') ↔ Clear es ∧ Clear es' :=
  List.forall_mem_append

theorem clear_flatMap {α : Type} {xs : List α} {check : α → List VerifyError}
    (h : ∀ x ∈ xs, Clear (check x)) : Clear (xs.flatMap check) := by
  intro e he
  obtain ⟨x, hx, he⟩ := List.mem_flatMap.mp he
  exact h x hx e he

theorem clear_checkType (v : ValueId) (ty : Ty) : Clear (f.checkType block v ty) := by
  unfold checkType
  split
  · exact clear_singleton id
  · split
    · exact clear_nil
    · exact clear_singleton id

theorem clear_checkTypes (vs : List ValueId) (types : List Ty) :
    Clear (f.checkTypes block vs types) :=
  clear_flatMap fun _ _ => clear_checkType _ _

theorem clear_checkUses (scope vs : List ValueId) : Clear (checkUses block scope vs) := by
  intro e he
  obtain ⟨v, -, rfl⟩ := List.mem_map.mp he
  exact id

theorem clear_checkDefinitions {defined vs : List ValueId} (hnodup : vs.Nodup)
    (hdisjoint : defined.Disjoint vs) : Clear (f.checkDefinitions defined vs) := by
  induction vs generalizing defined with
  | nil => exact clear_nil
  | cons v rest ih =>
      obtain ⟨hv, hrest⟩ := List.nodup_cons.mp hnodup
      obtain ⟨hnew, hdisjoint⟩ := List.disjoint_cons_right.mp hdisjoint
      have hafter : (defined ++ [v]).Disjoint rest := by
        rw [List.disjoint_append_left, List.singleton_disjoint]
        exact ⟨hdisjoint, hv⟩
      rw [checkDefinitions, clear_append_iff, clear_append_iff, if_neg hnew]
      refine ⟨⟨?_, clear_nil⟩, ih hrest hafter⟩
      split
      · exact clear_singleton id
      · exact clear_nil

theorem clear_checkInstruction {i : Instruction} (h : f.HasTypes i.results i.resultTypes) :
    Clear (f.checkInstruction block i) := by
  cases i with
  | const result imm => exact clear_checkType _ _
  | cmp result pred lhs rhs =>
      rw [checkInstruction, clear_append_iff]
      refine ⟨?_, clear_checkType _ _⟩
      split
      · split
        · exact clear_nil
        · exact clear_singleton id
      · exact clear_nil
  | call callee args results =>
      have hlen : callee.results.length = results.length := h.length_eq.symm
      rw [checkInstruction, clear_append_iff, if_pos hlen]
      refine ⟨?_, clear_checkTypes _ _⟩
      split
      · exact clear_checkTypes _ _
      · exact clear_singleton id

theorem clear_checkEdge {edge : Edge} {target : Block} (h : f.block? edge.dest = some target) :
    Clear (f.checkEdge block edge) := by
  simp only [checkEdge, h]
  split
  · refine clear_flatMap fun p _ => ?_
    split
    · exact clear_checkType _ _
    · exact clear_nil
  · exact clear_singleton id

theorem clear_checkTerminator {t : Terminator}
    (h : ∀ edge ∈ t.successors, ∃ target, f.block? edge.dest = some target) :
    Clear (f.checkTerminator block t) := by
  have hedges : Clear (t.successors.flatMap (f.checkEdge block)) := by
    refine clear_flatMap fun edge hedge => ?_
    obtain ⟨target, htarget⟩ := h edge hedge
    exact clear_checkEdge htarget
  cases t with
  | br edge => exact clear_append_iff.mpr ⟨clear_nil, hedges⟩
  | condBr cond onTrue onFalse => exact clear_append_iff.mpr ⟨clear_checkType _ _, hedges⟩
  | ret values =>
      refine clear_append_iff.mpr ⟨?_, hedges⟩
      dsimp only
      split
      · exact clear_checkTypes _ _
      · exact clear_singleton id

theorem clear_checkInstructions {before scope : List ValueId} {is : List Instruction}
    (htyped : ∀ i ∈ is, f.HasTypes i.results i.resultTypes)
    (hnodup : (before ++ scope ++ is.flatMap Instruction.results).Nodup) :
    Clear (f.checkInstructions block before scope is) := by
  induction is generalizing scope with
  | nil => exact clear_nil
  | cons i rest ih =>
      obtain ⟨hi, hrest⟩ := List.forall_mem_cons.mp htyped
      rw [List.flatMap_cons, ← List.append_assoc] at hnodup
      have hdefined := List.nodup_append'.mp (List.nodup_append'.mp hnodup).1
      rw [List.append_assoc before] at hnodup
      simp only [checkInstructions, clear_append_iff]
      exact ⟨⟨⟨clear_checkUses _ _, clear_checkInstruction hi⟩,
        clear_checkDefinitions hdefined.2.1 hdefined.2.2⟩, ih hrest hnodup⟩

theorem clear_checkBlock {before : List ValueId} {b : Block}
    (htyped : ∀ i ∈ b.instructions, f.HasTypes i.results i.resultTypes)
    (htargets : ∀ edge ∈ b.terminator.successors, ∃ target, f.block? edge.dest = some target)
    (hnodup : (before ++ b.definitions).Nodup) : Clear (f.checkBlock before b) := by
  rw [Block.definitions, ← List.append_assoc] at hnodup
  have hparams := List.nodup_append'.mp (List.nodup_append'.mp hnodup).1
  simp only [checkBlock, clear_append_iff]
  exact ⟨⟨⟨clear_checkDefinitions hparams.2.1 hparams.2.2,
    clear_checkInstructions htyped hnodup⟩, clear_checkUses _ _⟩, clear_checkTerminator htargets⟩

theorem clear_checkBlocks {before : List ValueId} {bs : List Block}
    (htyped : ∀ b ∈ bs, ∀ i ∈ b.instructions, f.HasTypes i.results i.resultTypes)
    (htargets : ∀ b ∈ bs, ∀ edge ∈ b.terminator.successors,
      ∃ target, f.block? edge.dest = some target)
    (hnodup : (before ++ bs.flatMap Block.definitions).Nodup) :
    Clear (f.checkBlocks before bs) := by
  induction bs generalizing before with
  | nil => exact clear_nil
  | cons b rest ih =>
      obtain ⟨hb, hrest⟩ := List.forall_mem_cons.mp htyped
      obtain ⟨hb', hrest'⟩ := List.forall_mem_cons.mp htargets
      rw [List.flatMap_cons, ← List.append_assoc] at hnodup
      rw [checkBlocks, clear_append_iff]
      exact ⟨clear_checkBlock hb hb' (List.nodup_append'.mp hnodup).1, ih hrest hrest' hnodup⟩

/-- The errors of a function whose entry takes the parameters of the signature, that defines each
value once, types its results and branches to its blocks. -/
theorem clear_verify {entry : Block} (hentry : f.entry? = some entry)
    (hparams : f.HasTypes entry.params f.signature.params)
    (htyped : ∀ b ∈ f.blocks, ∀ i ∈ b.instructions, f.HasTypes i.results i.resultTypes)
    (htargets : ∀ b ∈ f.blocks, ∀ edge ∈ b.terminator.successors,
      ∃ target, f.block? edge.dest = some target)
    (hnodup : (f.blocks.flatMap Block.definitions).Nodup) : Clear f.verify.errors := by
  have hcheckEntry : f.checkEntry entry = [] := by
    refine (f.checkEntry_eq_nil_iff fun v hv => ?_).mpr hparams
    obtain ⟨ty, -, hty⟩ := exists_mem_of_forall₂ hparams hv
    exact ⟨ty, hty⟩
  have hunreachable : Clear (f.unreachable.map .unreachableBlock) := by
    intro e he
    obtain ⟨id, -, rfl⟩ := List.mem_map.mp he
    exact fun h => h
  simp only [verify, hentry, hcheckEntry, clear_append_iff]
  exact ⟨⟨clear_nil, clear_checkBlocks htyped htargets (by simpa using hnodup)⟩, hunreachable⟩

/-- The types that calls declare for the parameters of the blocks, in order: those of the
signature for the entry, and those that each other block is created with. -/
def declaredParams (signature : Signature) (calls : List BuildCall) : List (List Ty) :=
  signature.params :: calls.filterMap BuildCall.newBlock?

/-- The build-up of a function for whose blocks these parameter types were declared. -/
structure Consistent (f : Function) (declared : List (List Ty)) : Prop where
  ids : f.IdsArePlaces
  /-- Each place of the table is defined by one parameter or result. -/
  definedOnce : ∀ v : ValueId, v.index < f.valueTypes.length →
    (f.blocks.flatMap Block.definitions).count v = 1
  /-- Nothing else is defined. -/
  inTable : ∀ v ∈ f.blocks.flatMap Block.definitions, v.index < f.valueTypes.length
  params : List.Forall₂ f.HasTypes (f.blocks.map Block.params) declared
  results : ∀ b ∈ f.blocks, ∀ i ∈ b.instructions, f.HasTypes i.results i.resultTypes
  noStructural : ∀ e ∈ f.verify.errors, ¬ e.IsStructural

end Function

namespace Builder

variable {b b' : Builder} {signature : Signature}

theorem Step.signature_eq (h : b.Step b') : b'.signature = b.signature := by
  cases h <;> rfl

theorem signature_after (hb : b.Sound) (calls : List BuildCall) :
    (b.after calls).signature = b.signature := by
  induction calls generalizing b with
  | nil => rfl
  | cons call rest ih =>
      have hstep := step_afterCall hb call
      exact (ih (hstep.sound hb)).trans hstep.signature_eq

theorem map_params_draft : b.draft.blocks.map Block.params = b.blocks.map OpenBlock.params := by
  apply List.ext_getElem?
  intro place
  simp [draft, Function.comp_def]

theorem exists_of_mem_draft {sealedBlock : Block} (h : sealedBlock ∈ b.draft.blocks) :
    ∃ blk ∈ b.blocks, sealedBlock.instructions = blk.instructions ∧
      sealedBlock.terminator = blk.terminator.getD (.ret []) := by
  obtain ⟨place, hplace⟩ := List.mem_iff_getElem?.mp h
  rw [draft, List.getElem?_mapIdx] at hplace
  obtain ⟨blk, hblk, rfl⟩ := Option.map_eq_some_iff.mp hplace
  exact ⟨blk, List.mem_of_getElem? hblk, rfl, rfl⟩

theorem Typed.exists_target {declared : List (List Ty)} (hb : b.Typed declared)
    {sealedBlock : Block} (h : sealedBlock ∈ b.draft.blocks) {edge : Edge}
    (hedge : edge ∈ sealedBlock.terminator.successors) :
    ∃ target, b.draft.block? edge.dest = some target := by
  obtain ⟨blk, hblk, -, hterm⟩ := exists_of_mem_draft h
  rw [hterm] at hedge
  cases ht : blk.terminator with
  | none => simp [ht, Terminator.successors] at hedge
  | some t =>
      rw [ht, Option.getD_some] at hedge
      have hlt := hb.targets blk hblk t ht edge hedge
      rw [block?_draft, block?, List.getElem?_eq_getElem hlt, Option.map_some]
      exact ⟨_, rfl⟩

theorem consistent_draft {rest : List (List Ty)} (hsignature : b.signature = signature)
    (hsound : b.Sound) (htyped : b.Typed (signature.params :: rest)) :
    b.draft.Consistent (signature.params :: rest) := by
  subst hsignature
  have hparams : List.Forall₂ b.draft.HasTypes (b.draft.blocks.map Block.params)
      (b.signature.params :: rest) := map_params_draft ▸ htyped.params
  have hresults : ∀ blk ∈ b.draft.blocks, ∀ i ∈ blk.instructions,
      b.draft.HasTypes i.results i.resultTypes := by
    intro blk hblk i hi
    obtain ⟨blk', hblk', hinstructions, -⟩ := exists_of_mem_draft hblk
    exact htyped.results blk' hblk' i (hinstructions ▸ hi)
  have hnodup : (b.draft.blocks.flatMap Block.definitions).Nodup :=
    definitions_draft ▸ hsound.isNumbered.nodup
  obtain ⟨entry, hentry, hentryParams⟩ : ∃ entry, b.draft.entry? = some entry ∧
      b.draft.HasTypes entry.params b.draft.signature.params := by
    cases hblocks : b.draft.blocks with
    | nil => simp [hblocks] at hparams
    | cons entry others =>
        rw [hblocks, List.map_cons] at hparams
        exact ⟨entry, by simp [Function.entry?, hblocks], (List.forall₂_cons.mp hparams).1⟩
  refine ⟨draft_idsArePlaces, ?_, ?_, hparams, hresults, ?_⟩
  · intro v hv
    refine List.count_eq_one_of_mem hnodup ?_
    rw [definitions_draft]
    exact hsound.isNumbered.mem_iff.mpr hv
  · intro v hv
    rw [definitions_draft] at hv
    exact hsound.isNumbered.mem_iff.mp hv
  · exact Function.clear_verify hentry hentryParams hresults
      (fun _ hblk _ hedge => htyped.exists_target hblk hedge) hnodup

/-- After any calls to a builder, a call that fails leaves it as it was, and blocks that have
their terminators stay as they are whatever is called next. The function that it is sealed as
defines each value of its table once, with the type that the defining block, constant, comparison
or contract gives, and its errors are only in the use of values and the reach of blocks. -/
theorem calls_consistent (signature : Signature) (calls : List BuildCall) :
    (∀ call e, (call.action ((ofSignature signature).after calls)).1 = .error e →
      ((ofSignature signature).after calls).afterCall call =
        (ofSignature signature).after calls) ∧
    (∀ id blk, ((ofSignature signature).after calls).block? id = some blk →
      blk.terminator.isSome → ∀ more : List BuildCall,
        ((ofSignature signature).after (calls ++ more)).block? id = some blk) ∧
    ∀ f, ((ofSignature signature).after calls).sealed = .ok f →
      f.Consistent (Function.declaredParams signature calls) := by
  have hsound := (ofSignature_sound signature).after calls
  refine ⟨?_, ?_, ?_⟩
  · intro call e h
    exact call.atomic_action _ e _ (Prod.ext h rfl)
  · intro id blk hblk hterminated more
    rw [after, List.foldl_append]
    exact block?_after_of_terminated hsound hblk hterminated more
  · intro f h
    have htyped := (typed_ofSignature signature).after (ofSignature_sound signature) calls
    have hsignature := signature_after (ofSignature_sound signature) calls
    rw [← draft_of_sealed h]
    exact consistent_draft hsignature hsound htyped

/-- The calls that build Euclid's loop, among calls that fail: a branch to a block that was not
created, an instruction where no block is open, and one in a block that is closed. -/
def gcdLoopCalls : List BuildCall :=
  [.createBlock [.u32, .u32], .br ⟨⟨7⟩, []⟩, .br ⟨⟨1⟩, [⟨0⟩, ⟨1⟩]⟩, .const (.u32 5),
    .switchTo ⟨0⟩, .cmp .eq ⟨0⟩ ⟨40⟩, .switchTo ⟨1⟩, .call .u32Divmod [⟨2⟩, ⟨3⟩],
    .const (.u32 0), .cmp .eq ⟨5⟩ ⟨6⟩, .createBlock [.u32],
    .condBr ⟨7⟩ ⟨⟨2⟩, [⟨3⟩]⟩ ⟨⟨1⟩, [⟨3⟩, ⟨5⟩]⟩, .switchTo ⟨2⟩, .ret [⟨8⟩]]

def gcdLoopBuilder : Builder :=
  (ofSignature Function.gcdLoop.signature).after gcdLoopCalls

theorem gcdLoopCalls_consistent :
    ((BuildCall.ret []).action gcdLoopBuilder).1 = .error (.builder .noCurrentBlock) ∧
    gcdLoopBuilder.afterCall (.ret []) = gcdLoopBuilder ∧
    gcdLoopBuilder.block? ⟨0⟩ = some ⟨[⟨0⟩, ⟨1⟩], [], some (.br ⟨⟨1⟩, [⟨0⟩, ⟨1⟩]⟩)⟩ ∧
    ((ofSignature Function.gcdLoop.signature).after
        (gcdLoopCalls ++ [.switchTo ⟨0⟩, .const (.u32 5), .ret []])).block? ⟨0⟩ =
      some ⟨[⟨0⟩, ⟨1⟩], [], some (.br ⟨⟨1⟩, [⟨0⟩, ⟨1⟩]⟩)⟩ ∧
    gcdLoopBuilder.sealed = .ok Function.gcdLoop ∧
    Function.gcdLoop.Consistent [[.u32, .u32], [.u32, .u32], [.u32]] := by
  obtain ⟨hatomic, hclosed, hsealed⟩ :=
    calls_consistent Function.gcdLoop.signature gcdLoopCalls
  have hfails : ((BuildCall.ret []).action gcdLoopBuilder).1 =
      .error (.builder .noCurrentBlock) := by decide +kernel
  have hentry : gcdLoopBuilder.block? ⟨0⟩ =
      some ⟨[⟨0⟩, ⟨1⟩], [], some (.br ⟨⟨1⟩, [⟨0⟩, ⟨1⟩]⟩)⟩ := by decide +kernel
  have hloop : gcdLoopBuilder.sealed = .ok Function.gcdLoop := by decide +kernel
  exact ⟨hfails, hatomic _ _ hfails, hentry, hclosed _ _ hentry rfl _, hloop, hsealed _ hloop⟩

end Builder

end FieldSSA
