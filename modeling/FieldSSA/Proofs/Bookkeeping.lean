import FieldSSA.Proofs.BlockLayout
import FieldSSA.Proofs.HandleTrades
import FieldSSA.Proofs.LinearUse

/-!
The books of lowering agree with what verification finds in the emitted function. While operations
are lowered, there are as many values as readings, live handles and parameters of blocks that are
still to be opened. No value is read twice, so in the end there are as many live handles as unused
values. Values without a handle are no exception: the code that creates them reads them.
-/

namespace FieldSSA

/-- A move to a temporary. -/
def Instruction.isStoreTemp : Instruction → Bool
  | .call (.storeTemp _) _ _ => true
  | _ => false

namespace Recipe

variable {r : Recipe} (next : Nat) {args : List ValueId} (hlen : args.length = r.params.length)

include hlen

theorem countP_isStoreTemp_code :
    (r.code next args).instructions.countP Instruction.isStoreTemp = r.slots := by
  cases r.shaped hlen rfl with
  | helper callee => cases callee <;> rfl
  | constant | comparison | zeroTest => rfl

/-- The code of a recipe creates a value for each result and one for each operand that is not an
argument. -/
theorem length_code_types :
    (r.code next args).types.length + args.length =
      ((r.code next args).instructions.flatMap Instruction.operands).length + r.results.length := by
  have hcreated := congrArg List.length (@scratch_append_outputs r next args hlen)
  rw [List.length_append, length_numbered, length_code_outputs hlen] at hcreated
  rw [code_operands hlen, List.length_append]
  omega

end Recipe

/-- Values that a block has read so far, in order. -/
def OpenBlock.uses (blk : OpenBlock) : List ValueId :=
  blk.instructions.flatMap Instruction.operands ++
    (blk.terminator.map Terminator.operands).getD []

namespace Builder

/-- Values that the blocks have read so far. -/
def uses (b : Builder) : List ValueId :=
  b.blocks.flatMap OpenBlock.uses

def instructions (b : Builder) : List Instruction :=
  b.blocks.flatMap OpenBlock.instructions

variable {b : Builder} {id : BlockId} {blk : OpenBlock}

theorem uses_extend (hopen : b.OpenAt id blk) (is : List Instruction) (types : List Ty) :
    (b.extend id is types).uses.Perm (b.uses ++ is.flatMap Instruction.operands) := by
  refine flatMap_modify_perm _ hopen.block ?_
  simp [OpenBlock.uses, hopen.terminator]

theorem uses_close (hopen : b.OpenAt id blk) (t : Terminator) :
    (b.close id t).uses.Perm (b.uses ++ t.operands) := by
  refine flatMap_modify_perm _ hopen.block ?_
  simp [OpenBlock.uses, hopen.terminator]

theorem instructions_extend (hopen : b.OpenAt id blk) (is : List Instruction) (types : List Ty) :
    (b.extend id is types).instructions.Perm (b.instructions ++ is) :=
  flatMap_modify_perm _ hopen.block rfl

theorem instructions_close (hopen : b.OpenAt id blk) (t : Terminator) :
    (b.close id t).instructions.Perm b.instructions := by
  have hperm := flatMap_modify_perm (g := OpenBlock.instructions) (f := fun blk =>
    { blk with terminator := some t }) [] hopen.block (List.append_nil _).symm
  rwa [List.append_nil] at hperm

theorem uses_addBlock (b : Builder) (types : List Ty) : (b.addBlock types).uses = b.uses := by
  simp [uses, addBlock, OpenBlock.uses]

theorem instructions_addBlock (b : Builder) (types : List Ty) :
    (b.addBlock types).instructions = b.instructions := by
  simp [instructions, addBlock]

theorem uses_draft : b.draft.blocks.flatMap Block.uses = b.uses := by
  refine flatMap_mapIdx OpenBlock.uses Block.uses _ (fun i blk => ?_) _
  cases hterm : blk.terminator <;> simp [Block.uses, OpenBlock.uses, hterm, Terminator.operands]

theorem instructions_draft : b.draft.blocks.flatMap Block.instructions = b.instructions :=
  flatMap_mapIdx OpenBlock.instructions Block.instructions _ (fun _ _ => rfl) _

end Builder

/-- The number of parameters of the labels ahead. -/
def awaited (os : List Op) : Nat :=
  ((declaredLabels os).flatMap Prod.snd).length

theorem awaited_label (l : Label) (params : List (Var × Ty)) (rest : List Op) :
    awaited (.label l params :: rest) = params.length + awaited rest := by
  simp [awaited, declaredLabels, Op.declares?]

theorem awaited_cons {o : Op} (h : o.isLabel = false) (rest : List Op) :
    awaited (o :: rest) = awaited rest := by
  cases o with
  | label l params => simp [Op.isLabel] at h
  | _ => rfl

namespace LowerState

open Arena (Traded)

/-- The books are balanced: there are as many values as readings, live handles and parameters that
are still awaited, and as many slots in use as moves to a temporary. -/
structure Balanced (awaited : Nat) (s : LowerState) : Prop where
  values : s.workspace.builder.valueTypes.length =
    s.workspace.builder.uses.length + s.workspace.arena.live.length + awaited
  slots : s.workspace.arena.slots =
    s.workspace.builder.instructions.countP Instruction.isStoreTemp

variable {src : Source} {c : LowerContext} {opIndex n count : Nat} {o : Op} {rest : List Op}
  {s s₁ : LowerState} {g : Ledger} {id : BlockId} {blk : OpenBlock}

/-- Awaited parameters get their handles. -/
theorem Balanced.bound (hb : Balanced (count + n) s)
    (hblocks : s₁.workspace.builder.blocks = s.workspace.builder.blocks)
    (htypes : s₁.workspace.builder.valueTypes = s.workspace.builder.valueTypes)
    (htrade : Traded 0 count 0 s.workspace.arena s₁.workspace.arena) : Balanced n s₁ := by
  have huses : s₁.workspace.builder.uses = s.workspace.builder.uses := by
    rw [Builder.uses, hblocks, ← Builder.uses]
  have hinstructions : s₁.workspace.builder.instructions = s.workspace.builder.instructions := by
    rw [Builder.instructions, hblocks, ← Builder.instructions]
  constructor
  · have hvalues := hb.values
    have hlive := htrade.live
    rw [htypes, huses]
    omega
  · rw [htrade.slots, hb.slots, hinstructions, Nat.add_zero]

theorem Balanced.advanced (hb : Balanced n s) (hopen : s.workspace.builder.OpenAt id blk)
    (hregistry : c.registry = .default) (h : Advanced src g o id s s₁)
    (hrun : (Lower.op opIndex o).exec c s = .ok ((), s₁)) : Balanced n s₁ := by
  obtain ⟨r, args, results, xs, hcall, hresults, hargs, hparams, hgrown⟩ := h
  have htrade := Lower.op_body_trades hregistry hcall s () s₁ hrun
  have hcode := Recipe.length_code_types s.workspace.builder.valueTypes.length hparams.length_eq
  have hslots := Recipe.countP_isStoreTemp_code s.workspace.builder.valueTypes.length
    hparams.length_eq
  have hbuilder := hgrown.builder
  generalize r.code s.workspace.builder.valueTypes.length xs = code at hcode hslots hbuilder
  constructor
  · have huses := (Builder.uses_extend hopen code.instructions code.types).length_eq
    have hcreated : s₁.workspace.builder.valueTypes.length =
        s.workspace.builder.valueTypes.length + code.types.length := by
      rw [hbuilder, Builder.extend, List.length_append]
    rw [← hbuilder, List.length_append] at huses
    have hvalues := hb.values
    have hlive := htrade.live
    have hlen := hargs.length_eq
    omega
  · rw [hbuilder, (Builder.instructions_extend hopen _ _).countP_eq, List.countP_append, hslots,
      ← hb.slots]
    exact htrade.slots

theorem Balanced.ended (hb : Balanced n s) (hopen : s.workspace.builder.OpenAt id blk)
    (h : Ended src o id s s₁) (hrun : (Lower.op opIndex o).exec c s = .ok ((), s₁)) :
    Balanced n s₁ := by
  obtain ⟨t, hbuilder, -, hends⟩ := h
  have htrade := Lower.op_terminator_trades hends s () s₁ hrun
  constructor
  · have huses := (Builder.uses_close hopen t).length_eq
    have hcreated : s₁.workspace.builder.valueTypes.length =
        s.workspace.builder.valueTypes.length := by
      rw [hbuilder, Builder.close]
    rw [← hbuilder, List.length_append] at huses
    have hvalues := hb.values
    have hlive := htrade.live
    omega
  · rw [hbuilder, (Builder.instructions_close hopen t).countP_eq, ← hb.slots]
    exact htrade.slots

theorem Balanced.opened {l : Label} {params : List (Var × Ty)}
    (hb : Balanced (params.length + n) s) (hready : Ready src (.label l params :: rest) s)
    (hcurrent : s.workspace.builder.current = none) (h : Opened l params id blk s s₁)
    (hrun : (Lower.op opIndex (.label l params)).exec c s = .ok ((), s₁)) : Balanced n s₁ := by
  obtain ⟨id', blk', hlookup, hblk, hparams, -⟩ := hready.exists_block
  rw [Lower.exec_op_label params hcurrent hlookup hblk] at hrun
  have htrade := Lower.defineAll_trades _ _ _ _ _ _ hrun
  rw [length_zip_of_eq (by rw [hparams.length_eq, List.length_map])] at htrade
  exact hb.bound (by rw [h.builder]) (by rw [h.builder]) htrade

theorem Balanced.declared (hb : Balanced n s) (l : Label) (types : List Ty) :
    Balanced (n + types.length) (s.declared l types) := by
  have hvalues := hb.values
  constructor
  · change (s.workspace.builder.valueTypes ++ types).length =
      (s.workspace.builder.addBlock types).uses.length + s.workspace.arena.live.length + _
    rw [Builder.uses_addBlock, List.length_append]
    omega
  · change _ = (s.workspace.builder.addBlock types).instructions.countP _
    rw [Builder.instructions_addBlock]
    exact hb.slots

theorem Balanced.declaredAll (hb : Balanced n s) (labels : List (Label × List Ty)) :
    Balanced (n + (labels.flatMap Prod.snd).length) (s.declaredAll labels) := by
  induction labels generalizing s n with
  | nil => exact hb
  | cons p rest ih =>
      rw [List.flatMap_cons, List.length_append, ← Nat.add_assoc]
      exact ih (hb.declared p.1 p.2)

theorem balanced_initial (src : Source) : Balanced src.params.length (initial src) := by
  constructor
  · simp [initial, Builder.ofSignature, Builder.addBlock, Builder.uses, OpenBlock.uses, Arena.live,
      Source.signature, Source.paramTypes]
  · rfl

theorem Balanced.stepped (hb : Balanced (awaited (o :: rest)) s)
    (hregistry : c.registry = .default) (hready : Ready src (o :: rest) s)
    (h : Stepped src o s s₁) (hrun : (Lower.op opIndex o).exec c s = .ok ((), s₁)) :
    Balanced (awaited rest) s₁ := by
  cases h with
  | opened heq hcurrent hopened =>
      subst heq
      rw [awaited_label] at hb
      exact hb.opened hready hcurrent hopened hrun
  | advanced hopen hlabel hadvanced =>
      rw [awaited_cons hlabel] at hb
      exact hb.advanced hopen hregistry hadvanced hrun
  | ended hopen hlabel hended =>
      rw [awaited_cons hlabel] at hb
      exact hb.ended hopen hended hrun

end LowerState

namespace Lower

open LowerState

variable {src : Source} {c : LowerContext} {opIndex : Nat} {s s' : LowerState}
  {segment : Option Ledger}

theorem ops_balanced {os : List Op} (hregistry : c.registry = .default) (hready : Ready src os s)
    (hactive : Active segment os s) (hb : Balanced (awaited os) s)
    (hrun : (ops opIndex os).exec c s = .ok ((), s')) : Balanced 0 s' := by
  -- along the stream segments are opened and ended, and fewer parameters are awaited
  induction os generalizing segment s opIndex with
  | nil =>
      cases hrun
      exact hb
  | cons o rest ih =>
      rw [ops, exec_bind] at hrun
      obtain ⟨⟨_, s₁⟩, hop, hrest⟩ := bind_eq_ok_iff.mp hrun
      obtain ⟨hstepped, hready₁, segment', hactive₁⟩ := op_stepped hregistry hready hactive hop
      exact ih hready₁ hactive₁ (hb.stepped hregistry hready hstepped hop) hrest

end Lower

theorem length_filter_notMem {α : Type} [DecidableEq α] {xs ys : List α} (hxs : xs.Nodup)
    (hys : ys.Nodup) (hsub : ys ⊆ xs) :
    (xs.filter (· ∉ ys)).length + ys.length = xs.length := by
  have hperm : (xs.filter (· ∈ ys)).Perm ys := by
    refine (List.perm_ext_iff_of_nodup (hxs.filter _) hys).mpr fun x => ?_
    simpa using @hsub x
  have hsplit := xs.length_eq_length_filter_add (· ∈ ys)
  simp only [← decide_not] at hsplit
  rw [← hperm.length_eq]
  omega

namespace Function

variable {f : Function}

theorem map_value_definitions :
    f.definitions.map Unused.value = f.blocks.flatMap Block.definitions := by
  simp [definitions, List.map_flatMap, Function.comp_def]

theorem map_value_unused : f.unused.map Unused.value =
    (f.blocks.flatMap Block.definitions).filter (· ∉ f.blocks.flatMap Block.uses) := by
  rw [← map_value_definitions, List.filter_map]
  rfl

theorem verify_unused (h : f.verify.errors = []) : f.verify.unused = f.unused := by
  cases hentry : f.entry? with
  | none => simp [verify, hentry] at h
  | some entry => simp [verify, hentry]

theorem mem_unused_iff {d : Unused} :
    d ∈ f.unused ↔ (∃ b ∈ f.blocks, d.block = b.id ∧ d.value ∈ b.definitions) ∧
      ∀ b ∈ f.blocks, d.value ∉ b.uses := by
  have hdefined : d ∈ f.definitions ↔ ∃ b ∈ f.blocks, d.block = b.id ∧ d.value ∈ b.definitions := by
    simp only [definitions, List.mem_flatMap, List.mem_map]
    refine exists_congr fun b => and_congr_right fun _ => ⟨?_, ?_⟩
    · rintro ⟨v, hv, rfl⟩
      exact ⟨rfl, hv⟩
    · rintro ⟨hid, hv⟩
      exact ⟨d.value, hv, by rw [← hid]⟩
  simp only [unused, List.mem_filter, hdefined, List.mem_flatMap, decide_eq_true_eq, not_exists,
    not_and]

end Function

namespace Source

open LowerState

variable {s : Source} {c : Config} {f : Function}

theorem LoweredBy.balanced {started finished : LowerState} (h : s.LoweredBy started finished) :
    Balanced 0 finished := by
  have hdeclared := (balanced_initial s).declaredAll (declaredLabels s.ops)
  have htrade := Lower.bindEntry_trades _ _ _ _ h.bound
  have hparams : s.paramVars.length = s.params.length := List.length_map _
  rw [hparams] at htrade
  have hstarted : Balanced (awaited s.ops) started :=
    hdeclared.bound (by rw [h.builder]) (by rw [h.builder]) htrade
  exact Lower.ops_balanced rfl h.begun.ready (h.begun.active h.tracks) hstarted h.ran

theorem lowerBody_of_exec {summary : Summary} {finished : LowerState}
    (h : (Lower.body s.paramVars s.ops).exec ⟨s.name, .default⟩ (initial s) =
      .ok (summary, finished)) :
    lowerBody s.name .default (.ofSignature s.signature) s.paramVars s.ops =
      (.ok summary, finished.workspace.builder) := by
  simp only [Lower.exec, initial] at h
  simp only [lowerBody, ReaderT.run]
  rcases hrun : Lower.body s.paramVars s.ops ⟨s.name, .default⟩
    { workspace := ⟨.ofSignature s.signature, {}⟩ } with ⟨e | summary', s'⟩
  · simp [hrun] at h
  · rw [hrun] at h
    cases h
    rfl

/-- The summary of lowering agrees with the emitted function. There are as many live handles as
unused values, as many slots as moves to a temporary, and as many blocks. The unused values are
those that a block defines and none reads, each once and in program order. -/
theorem emit_bookkeeping (s : Source) (c : Config) (f : Function)
    (h : s.emit .default c = .ok f) :
    ∃ summary b,
      lowerBody s.name .default (.ofSignature s.signature) s.paramVars s.ops = (.ok summary, b) ∧
      b.sealed = .ok f ∧ summary.live = f.verify.unused.length ∧
      summary.slots = (f.blocks.flatMap Block.instructions).countP Instruction.isStoreTemp ∧
      summary.blocks = f.blocks.length ∧ f.verify.unused.Sublist f.definitions ∧
      (f.verify.unused.map Unused.value).Nodup ∧
      ∀ d, d ∈ f.verify.unused ↔ (∃ b ∈ f.blocks, d.block = b.id ∧ d.value ∈ b.definitions) ∧
        ∀ b ∈ f.blocks, d.value ∉ b.uses := by
  obtain ⟨started, finished, hlowered, hsealed, hbody⟩ :=
    exists_loweredBy_of_emit (validate_of_emit h) h
  obtain ⟨hverify, -⟩ := exists_segment_of_emit h
  have hw := f.verify_errors_eq_nil_iff.mp hverify
  have hdefinitions := hw.definitions
  have hnodup := nodup_uses_of_emit h
  have hsub : f.blocks.flatMap Block.uses ⊆ f.blocks.flatMap Block.definitions := by
    intro x hx
    obtain ⟨b, hb, hx⟩ := List.mem_flatMap.mp hx
    exact List.mem_flatMap.mpr ⟨b, hb, (hw.blocks b hb).uses_subset hx⟩
  have hbalanced := hlowered.balanced
  have hnumbered : List.Perm _ _ :=
    hlowered.lowered.keeps.isNumbered hlowered.begun.ready.isNumbered
  refine ⟨finished.summary, _, lowerBody_of_exec hbody, hsealed, ?_⟩
  obtain rfl : finished.workspace.builder.draft = f := Builder.draft_of_sealed hsealed
  rw [Function.verify_unused hverify]
  refine ⟨?_, ?_, ?_, List.filter_sublist, ?_, fun d => Function.mem_unused_iff⟩
  · have hunused := length_filter_notMem hdefinitions hnodup hsub
    rw [← Function.map_value_unused, List.length_map, Builder.uses_draft, Builder.definitions_draft,
      hnumbered.length_eq, length_numbered] at hunused
    have hvalues := hbalanced.values
    change finished.workspace.arena.live.length = _
    omega
  · rw [Builder.instructions_draft]
    exact hbalanced.slots
  · rw [Builder.draft, List.length_mapIdx]
    rfl
  · rw [Function.map_value_unused]
    exact hdefinitions.filter _

/-- Euclid's algorithm stores one remainder and never reads the quotient. -/
theorem euclid_bookkeeping :
    ∃ f, euclid.emit .default {} = .ok f ∧ f.blocks.length = 3 ∧
      (f.blocks.flatMap Block.instructions).countP Instruction.isStoreTemp = 1 ∧
      f.verify.unused.length = 1 := by
  obtain ⟨f, hf⟩ := exists_emit_of_wellFormed (c := {}) rfl euclid_wellFormed
  obtain ⟨summary, b, hlower, -, hlive, hslots, hblocks, -⟩ := emit_bookkeeping euclid {} f hf
  have hsummary : (lowerBody euclid.name .default (.ofSignature euclid.signature) euclid.paramVars
      euclid.ops).1 = .ok ⟨3, 15, 1, 1⟩ := by decide +kernel
  rw [hlower] at hsummary
  obtain rfl : summary = ⟨3, 15, 1, 1⟩ := Except.ok.inj hsummary
  exact ⟨f, hf, hblocks.symm, hslots.symm, hlive.symm⟩

end Source

end FieldSSA
