import FieldSSA.Proofs.SegmentCode

namespace FieldSSA

/-- Every value is defined once and read at most once, in the block that defines it and after
its definition. -/
structure Function.LinearUse (f : Function) : Prop where
  read_once : (f.blocks.flatMap Block.uses).Nodup
  defined_once : (f.blocks.flatMap Block.definitions).Nodup
  instructions : ∀ b ∈ f.blocks, ∀ before i after, b.instructions = before ++ i :: after →
    i.operands ⊆ b.params ++ before.flatMap Instruction.results
  terminators : ∀ b ∈ f.blocks, b.terminator.operands ⊆ b.definitions

section Block

variable {src : Source} {labels : List (Label × BlockId)} {f : Function} {vals : Assignment}
  {g : Ledger} {next : Nat} {os : List Op} {is : List Instruction} {t : Terminator}

/-- A value that code may still read: it is that of a variable which was not used. -/
def Ledger.Leaves (g : Ledger) (vals : Assignment) (x : ValueId) : Prop :=
  ∃ v, v ∉ g.used ∧ vals v = some x

theorem Ledger.Leaves.of_gives {vars : List Var} {values : List ValueId} {x : ValueId}
    (hgives : vals.Gives vars values) (hunused : g.used.Disjoint vars) (hx : x ∈ values) :
    g.Leaves vals x := by
  obtain ⟨v, hv, hvx⟩ := hgives.exists_mem hx
  exact ⟨v, fun hused => hunused hused hv, hvx⟩

section Operation

variable {o : Op} {r : Recipe} {args results : List Var} {xs : List ValueId} {x : ValueId}
  (hsep : vals.Separates next) (hgives : vals.Gives args xs)
  (hparams : xs.length = r.params.length)

include hsep hgives

/-- What is left after an operation is an output of it, or was left before and not read. -/
theorem Ledger.Leaves.of_record {outputs : List ValueId}
    (hreads : (src.reads o).map Prod.fst = args)
    (h : (g.record src o).Leaves (vals.set results outputs) x) :
    x ∈ outputs ∨ g.Leaves vals x ∧ x ∉ xs := by
  obtain ⟨v, hv, hvx⟩ := h
  rw [Ledger.record, hreads, List.mem_append, not_or] at hv
  rcases Assignment.mem_zip_of_set hvx with hzip | hold
  · exact .inl (List.of_mem_zip hzip).2
  · refine .inr ⟨⟨v, hv.1, hold⟩, fun hx => ?_⟩
    obtain ⟨w, hw, hwx⟩ := hgives.exists_mem hx
    exact hv.2 (hsep.injective v w x hold hwx ▸ hw)

theorem Assignment.Separates.index_lt (hx : x ∈ xs) : x.index < next := by
  obtain ⟨v, -, hvx⟩ := hgives.exists_mem hx
  exact hsep.bounded v x hvx

include hparams

theorem Recipe.nodup_reads (hdistinct : args.Nodup) : (xs ++ r.scratch next).Nodup := by
  refine List.nodup_append'.mpr ⟨hgives.nodup hsep hdistinct, (nodup_created hparams).1, ?_⟩
  intro x hx hscratch
  have hle := (index_of_mem_created hparams (.inl hscratch)).1
  exact absurd (hsep.index_lt hgives hx) (Nat.not_lt.mpr hle)

/-- What the code of an operation reads is not left after it. -/
theorem Recipe.not_leaves_of_read (hreads : (src.reads o).map Prod.fst = args)
    (hx : x ∈ xs ++ r.scratch next) :
    x.index < next + (r.code next xs).types.length ∧
      ¬ (g.record src o).Leaves (vals.set results (r.code next xs).outputs) x := by
  rcases List.mem_append.mp hx with hx | hx
  · have hlt := hsep.index_lt hgives hx
    refine ⟨Nat.lt_add_right _ hlt, fun hleft => ?_⟩
    rcases hleft.of_record hsep hgives hreads with hout | ⟨-, hnot⟩
    · exact absurd hlt (Nat.not_lt.mpr (index_of_mem_created hparams (.inr hout)).1)
    · exact hnot hx
  · obtain ⟨hle, hlt⟩ := index_of_mem_created hparams (.inl hx)
    refine ⟨hlt, fun hleft => ?_⟩
    rcases hleft.of_record hsep hgives hreads with hout | ⟨⟨v, -, hvx⟩, -⟩
    · exact (nodup_created hparams).2.2 hx hout
    · exact absurd (hsep.bounded v x hvx) (Nat.not_lt.mpr hle)

end Operation

/-- The code of a segment reads no value twice, and of the values that were there before it only
those that the segment has not used. -/
theorem Coded.reads_once (h : Coded src labels f vals next os is t)
    (haccepts : src.Accepts (some g) os) (hsep : vals.Separates next) :
    (is.flatMap Instruction.operands ++ t.operands).Nodup ∧
      ∀ x ∈ is.flatMap Instruction.operands ++ t.operands, x.index < next →
        g.Leaves vals x := by
  -- the ledger, the values and the next number go on with each operation
  induction h generalizing g with
  | last hends =>
      have hoffers := haccepts.2.1.reads
      have hgives := hends.gives_operands
      rw [List.flatMap_nil, List.nil_append]
      refine ⟨hgives.nodup hsep hoffers.distinct, ?_⟩
      intro x hx _
      exact .of_gives hgives hoffers.unused hx
  | @step vals next o rest r args results xs is t hcall _ hargs htypes _ _ ih =>
      have hgives : vals.Gives args xs := hargs
      have hparams : xs.length = r.params.length := htypes.length_eq
      have hreads : (src.reads o).map Prod.fst = args := by
        rw [Source.reads_of_asCall? hcall, List.map_fst_zip]
        exact Nat.le_of_eq (hgives.length_eq.trans hparams)
      obtain ⟨hadmits, haccepts⟩ := (Source.accepts_call_iff hcall).mp haccepts
      obtain ⟨hrest, hleft⟩ := ih haccepts (hsep.set (Nat.le_add_right _ _)
        (Recipe.nodup_created hparams).2.1
        fun x hx => Recipe.index_of_mem_created hparams (.inr hx))
      rw [List.flatMap_append, Recipe.code_operands hparams, List.append_assoc]
      constructor
      · have hdistinct : args.Nodup := hreads ▸ hadmits.reads.distinct
        refine List.nodup_append'.mpr
          ⟨Recipe.nodup_reads hsep hgives hparams hdistinct, hrest, ?_⟩
        intro x hx hlater
        obtain ⟨hlt, hnot⟩ := Recipe.not_leaves_of_read hsep hgives hparams hreads hx
        exact hnot (hleft x hlater hlt)
      · intro x hx hlt
        rcases List.mem_append.mp hx with hx | hlater
        · rcases List.mem_append.mp hx with hx | hscratch
          · have hunused : g.used.Disjoint args := hreads ▸ hadmits.reads.unused
            exact .of_gives hgives hunused hx
          · have hle := (Recipe.index_of_mem_created hparams (.inl hscratch)).1
            exact absurd hlt (Nat.not_lt.mpr hle)
        · rcases (hleft x hlater (Nat.lt_add_right _ hlt)).of_record hsep hgives hreads with
            hout | ⟨hold, -⟩
          · have hle := (Recipe.index_of_mem_created hparams (.inr hout)).1
            exact absurd hlt (Nat.not_lt.mpr hle)
          · exact hold

theorem BlockCoded.uses_nodup {params : List (Var × Ty)} {b : Block}
    (h : BlockCoded src labels f params os b)
    (haccepts : src.Accepts (some (.ofParams params)) os) (hdefs : b.definitions.Nodup) :
    b.uses.Nodup := by
  obtain ⟨next, hbound, hcoded⟩ := h.code
  have hsep : (Assignment.set (fun _ => none) (params.map Prod.fst) b.params).Separates next := by
    apply Assignment.separates_none.set (Nat.zero_le next)
    · exact (List.nodup_append.mp hdefs).1
    · intro x hx
      exact ⟨Nat.zero_le _, hbound x hx⟩
  exact (hcoded.reads_once haccepts hsep).1

end Block

/-- Blocks that read only their own definitions, each once, read no value twice together. -/
theorem nodup_flatMap_uses {bs : List Block} (hdefs : (bs.flatMap Block.definitions).Nodup)
    (huses : ∀ b ∈ bs, b.uses.Nodup ∧ b.uses ⊆ b.definitions) :
    (bs.flatMap Block.uses).Nodup := by
  rw [List.nodup_flatMap] at hdefs ⊢
  refine ⟨fun b hb => (huses b hb).1, ?_⟩
  refine hdefs.2.imp_of_mem ?_
  intro b b' hb hb' hdisjoint x hx hx'
  exact hdisjoint ((huses b hb).2 hx) ((huses b' hb').2 hx')

namespace Source

theorem nodup_uses_of_emit {s : Source} {c : Config} {f : Function}
    (h : s.emit .default c = .ok f) : (f.blocks.flatMap Block.uses).Nodup := by
  obtain ⟨hverify, labels, hsegments⟩ := exists_segment_of_emit h
  have hw := f.verify_errors_eq_nil_iff.mp hverify
  refine nodup_flatMap_uses hw.definitions fun b hb => ⟨?_, (hw.blocks b hb).uses_subset⟩
  obtain ⟨params, os, -, haccepts, hcoded⟩ := hsegments b hb
  exact hcoded.uses_nodup haccepts ((List.nodup_flatMap.mp hw.definitions).1 b hb)

/-- Emitted functions use their values linearly. -/
theorem emit_linearUse (s : Source) (c : Config) (f : Function)
    (hemit : s.emit .default c = .ok f) : f.LinearUse := by
  obtain ⟨hverify, -⟩ := exists_segment_of_emit hemit
  have hw := f.verify_errors_eq_nil_iff.mp hverify
  constructor
  · exact nodup_uses_of_emit hemit
  · exact hw.definitions
  · intro b hb before i after heq
    have htyped := (hw.blocks b hb).instructions
    rw [heq, Function.instructionsTyped_append_iff] at htyped
    exact htyped.2.1
  · intro b hb
    exact (hw.blocks b hb).operands

theorem euclid_linearUse : ∃ f, euclid.emit .default {} = .ok f ∧ f.LinearUse := by
  obtain ⟨f, hf⟩ := exists_emit_of_wellFormed (c := {}) rfl euclid_wellFormed
  exact ⟨f, hf, emit_linearUse euclid {} f hf⟩

end Source

end FieldSSA
