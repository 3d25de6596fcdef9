import FieldSSA.Proofs.LowerTerminators
import FieldSSA.Proofs.Numbering

namespace FieldSSA

open LowerState

namespace LowerState

/-- What is expected of the operations ahead: their labels have blocks of their own, which are
still empty. -/
structure Ready (src : Source) (os : List Op) (s : LowerState) : Prop where
  declared : Declared src s
  isNumbered : s.workspace.builder.Numbered
  found : ∀ l place, Source.findLabel l os = some place → Source.findLabel l src.ops = some place
  distinct : (placedLabels os).Nodup
  empty : ∀ l ∈ placedLabels os, ∃ id blk, s.labels.lookup l = some id ∧
    s.workspace.builder.block? id = some blk ∧ blk.instructions = [] ∧ blk.terminator = none
  injective : ∀ l l' id, s.labels.lookup l = some id → s.labels.lookup l' = some id → l = l'

/-- The segment that is open, if one is, and its ledger. Its block is none of those ahead. -/
def Active : Option Ledger → List Op → LowerState → Prop
  | none, _, s => s.workspace.builder.current = none
  | some g, os, s => ∃ id blk, s.workspace.builder.OpenAt id blk ∧ Tracks g s ∧
      ∀ l ∈ placedLabels os, s.labels.lookup l ≠ some id

/-- What operations leave behind: the code of the open segment, the code of the labels that
they place, and nothing else. -/
structure Lowered (src : Source) (os : List Op) (s s' : LowerState) : Prop where
  closed : s'.workspace.builder.current = none
  labels : s'.labels = s.labels
  keeps : s.workspace.builder.Keeps s'.workspace.builder
  others : ∀ id, s.workspace.builder.current ≠ some id →
    (∀ l ∈ placedLabels os, s.labels.lookup l ≠ some id) →
    s'.workspace.builder.block? id = s.workspace.builder.block? id
  opened : ∀ id blk, s.workspace.builder.OpenAt id blk → ∃ is t,
    s'.workspace.builder.block? id = some ⟨blk.params, blk.instructions ++ is, some t⟩ ∧
    Coded src s.labels s'.workspace.builder.draft s.value? s.workspace.builder.valueTypes.length
      os is t
  placed : ∀ l params rest, Source.findLabel l os = some (params, rest) → ∃ id blk next is t,
    s.labels.lookup l = some id ∧ s.workspace.builder.block? id = some blk ∧
    s'.workspace.builder.block? id = some ⟨blk.params, is, some t⟩ ∧
    s.workspace.builder.valueTypes.length ≤ next ∧
    Coded src s.labels s'.workspace.builder.draft
      (Assignment.set (fun _ => none) (params.map Prod.fst) blk.params) next rest is t

variable {src : Source} {o : Op} {rest : List Op} {s s₁ : LowerState} {g : Ledger}

theorem Declared.keeps (hd : Declared src s) (hlabels : s₁.labels = s.labels)
    (hkeeps : s.workspace.builder.Keeps s₁.workspace.builder) : Declared src s₁ := by
  refine ⟨?_, ?_, by rw [hkeeps.signature, hd.returns]⟩
  · intro l types htypes
    obtain ⟨id, blk, hlookup, hblk, hparams⟩ := hd.placed l types htypes
    obtain ⟨blk', hblk', heq⟩ := hkeeps.block? hblk
    refine ⟨id, blk', by rw [hlabels, hlookup], hblk', ?_⟩
    rw [heq]
    exact Builder.hasTypes_of_grows hkeeps.grows hparams
  · rw [hlabels]
    exact hd.missing

theorem Ready.tail (hready : Ready src (o :: rest) s) (hlabels : s₁.labels = s.labels)
    (hkeeps : s.workspace.builder.Keeps s₁.workspace.builder)
    (hothers : ∀ l ∈ placedLabels rest, ∀ id, s.labels.lookup l = some id →
      s₁.workspace.builder.block? id = s.workspace.builder.block? id) :
    Ready src rest s₁ := by
  have hsub : placedLabels rest ⊆ placedLabels (o :: rest) := by
    intro l hl
    exact List.mem_filterMap.mpr (by
      obtain ⟨o', ho', heq⟩ := List.mem_filterMap.mp hl
      exact ⟨o', List.mem_cons_of_mem _ ho', heq⟩)
  refine ⟨hready.declared.keeps hlabels hkeeps, hkeeps.isNumbered hready.isNumbered, ?_, ?_, ?_,
    ?_⟩
  · intro l place hfound
    refine hready.found l place ?_
    cases o with
    | label m params =>
        have hne : m ≠ l := by
          rintro rfl
          have hnodup := hready.distinct
          rw [placedLabels_label, List.nodup_cons] at hnodup
          exact hnodup.1 (mem_placedLabels_of_findLabel hfound)
        rw [Source.findLabel, if_neg hne, hfound]
    | _ => exact hfound
  · exact hready.distinct.sublist ((List.sublist_cons_self o rest).filterMap _)
  · intro l hl
    obtain ⟨id, blk, hlookup, hblk, hempty⟩ := hready.empty l (hsub hl)
    exact ⟨id, blk, by rw [hlabels, hlookup], by rw [hothers l hl id hlookup, hblk], hempty⟩
  · rw [hlabels]
    exact hready.injective

theorem Ready.exists_block {l : Label} {params : List (Var × Ty)}
    (hready : Ready src (.label l params :: rest) s) :
    ∃ id blk, s.labels.lookup l = some id ∧ s.workspace.builder.block? id = some blk ∧
      s.workspace.builder.draft.HasTypes blk.params (params.map Prod.snd) ∧
      blk.instructions = [] ∧ blk.terminator = none := by
  have hfound : Source.findLabel l src.ops = some (params, rest) :=
    hready.found l _ (by simp [Source.findLabel])
  have hlabelTypes : src.labelTypes? l = some (params.map Prod.snd) := by
    simp [Source.labelTypes?, hfound]
  obtain ⟨id, blk, hlookup, hblk, hparams⟩ := hready.declared.placed l _ hlabelTypes
  obtain ⟨id', blk', hlookup', hblk', hempty⟩ := hready.empty l (by simp [placedLabels_label])
  obtain rfl : id = id' := Option.some.inj (hlookup.symm.trans hlookup')
  obtain rfl : blk = blk' := Option.some.inj (hblk.symm.trans hblk')
  exact ⟨id, blk, hlookup, hblk, hparams, hempty⟩

section Steps

variable {s' : LowerState} {id : BlockId} {blk : OpenBlock}

theorem Ended.keeps (hopen : s.workspace.builder.OpenAt id blk) (h : Ended src o id s s₁) :
    s.workspace.builder.Keeps s₁.workspace.builder := by
  obtain ⟨t, hbuilder, -, -⟩ := h
  rw [hbuilder]
  exact .close hopen.block

theorem Ended.active (rest : List Op) (h : Ended src o id s s₁) : Active none rest s₁ := by
  obtain ⟨t, hbuilder, -, -⟩ := h
  rw [Active, hbuilder]
  rfl

theorem Ready.ended (hready : Ready src (o :: rest) s)
    (hopen : s.workspace.builder.OpenAt id blk)
    (hnew : ∀ l ∈ placedLabels rest, s.labels.lookup l ≠ some id)
    (h : Ended src o id s s₁) : Ready src rest s₁ := by
  have hkeeps := h.keeps hopen
  obtain ⟨t, hbuilder, hlabels, -⟩ := h
  refine hready.tail hlabels hkeeps ?_
  intro l hl other hlookup
  have hne : other ≠ id := fun heq => hnew l hl (heq ▸ hlookup)
  rw [hbuilder, Builder.block?_close_of_ne hne]

theorem Lowered.of_ended (hlabel : o.isLabel = false) (hopen : s.workspace.builder.OpenAt id blk)
    (hnew : ∀ l ∈ placedLabels rest, s.labels.lookup l ≠ some id)
    (hended : Ended src o id s s₁) (h : Lowered src rest s₁ s') :
    Lowered src (o :: rest) s s' := by
  have hkeeps := hended.keeps hopen
  have hclosed : s₁.workspace.builder.current = none := hended.active rest
  obtain ⟨t, hbuilder, hlabels, hends⟩ := hended
  have hnew' : ∀ l ∈ placedLabels rest, s₁.labels.lookup l ≠ some id := hlabels ▸ hnew
  refine ⟨h.closed, h.labels.trans hlabels, hkeeps.trans h.keeps, ?_, ?_, ?_⟩
  · intro other hother hlater
    rw [placedLabels_cons hlabel] at hlater
    have hne : other ≠ id := fun heq => hother (heq ▸ hopen.current)
    rw [h.others other (by simp [hclosed]) (hlabels ▸ hlater), hbuilder,
      Builder.block?_close_of_ne hne]
  · intro id' blk' hopen'
    obtain ⟨rfl, rfl⟩ := hopen.unique hopen'
    refine ⟨[], t, ?_, .last (hends.grows (hkeeps.trans h.keeps).grows)⟩
    rw [h.others id' (by simp [hclosed]) hnew', hbuilder, Builder.block?_close hopen.block,
      List.append_nil]
  · intro l params after hfound
    rw [findLabel_cons hlabel] at hfound
    obtain ⟨id', blk', next, is, t', hlookup, hblk', hcode⟩ := h.placed l params after hfound
    rw [hlabels] at hlookup hcode
    have hne : id' ≠ id := by
      rintro rfl
      exact hnew l (mem_placedLabels_of_findLabel hfound) hlookup
    rw [hbuilder, Builder.block?_close_of_ne hne] at hblk'
    rw [hbuilder] at hcode
    exact ⟨id', blk', next, is, t', hlookup, hblk', hcode⟩

theorem Advanced.keeps (hopen : s.workspace.builder.OpenAt id blk)
    (h : Advanced src g o id s s₁) : s.workspace.builder.Keeps s₁.workspace.builder := by
  obtain ⟨r, args, results, xs, -, -, -, htypes, hgrown⟩ := h
  rw [hgrown.builder]
  exact .extend hopen.block (Recipe.code_results htypes.length_eq)

theorem Advanced.active (hopen : s.workspace.builder.OpenAt id blk)
    (hnew : ∀ l ∈ placedLabels rest, s.labels.lookup l ≠ some id)
    (h : Advanced src g o id s s₁) : Active (some (g.record src o)) rest s₁ := by
  obtain ⟨r, args, results, xs, -, -, -, -, hgrown⟩ := h
  exact ⟨id, _, hgrown.builder ▸ hopen.extend, hgrown.tracks, hgrown.labels ▸ hnew⟩

theorem Ready.advanced (hready : Ready src (o :: rest) s)
    (hopen : s.workspace.builder.OpenAt id blk)
    (hnew : ∀ l ∈ placedLabels rest, s.labels.lookup l ≠ some id)
    (h : Advanced src g o id s s₁) : Ready src rest s₁ := by
  have hkeeps := h.keeps hopen
  obtain ⟨r, args, results, xs, -, -, -, -, hgrown⟩ := h
  refine hready.tail hgrown.labels hkeeps ?_
  intro l hl other hlookup
  have hne : other ≠ id := fun heq => hnew l hl (heq ▸ hlookup)
  rw [hgrown.builder, Builder.block?_extend_of_ne hne]

theorem Lowered.of_advanced (hlabel : o.isLabel = false)
    (hopen : s.workspace.builder.OpenAt id blk)
    (hnew : ∀ l ∈ placedLabels rest, s.labels.lookup l ≠ some id)
    (hadvanced : Advanced src g o id s s₁) (h : Lowered src rest s₁ s') :
    Lowered src (o :: rest) s s' := by
  have hkeeps := hadvanced.keeps hopen
  obtain ⟨r, args, results, xs, hcall, hresults, hvalues, htypes, hgrown⟩ := hadvanced
  have hbuilder := hgrown.builder
  have hcurrent : s₁.workspace.builder.current = some id := by
    rw [hbuilder]
    exact hopen.current
  refine ⟨h.closed, h.labels.trans hgrown.labels, hkeeps.trans h.keeps, ?_, ?_, ?_⟩
  · intro other hother hlater
    rw [placedLabels_cons hlabel] at hlater
    have hne : other ≠ id := fun heq => hother (heq ▸ hopen.current)
    rw [h.others other (by simpa [hcurrent] using hne.symm) (hgrown.labels ▸ hlater), hbuilder,
      Builder.block?_extend_of_ne hne]
  · intro id' blk' hopen'
    obtain ⟨rfl, rfl⟩ := hopen.unique hopen'
    -- the rest was lowered in the block that has the code of this operation already
    obtain ⟨is, t, hblk, hcoded⟩ := h.opened _ _ (hbuilder ▸ hopen.extend)
    have hnew : s₁.workspace.builder.draft.HasTypes _ _ :=
      Builder.hasTypes_numbered (congrArg Builder.valueTypes hbuilder)
    rw [hgrown.labels, hgrown.values, hbuilder, Builder.extend, List.length_append] at hcoded
    rw [List.append_assoc] at hblk
    exact ⟨_, t, hblk, .step hcall hresults hvalues
      (Builder.hasTypes_of_grows (hkeeps.trans h.keeps).grows htypes)
      (Builder.hasTypes_of_grows h.keeps.grows hnew) hcoded⟩
  · intro l params after hfound
    rw [findLabel_cons hlabel] at hfound
    obtain ⟨id', blk', next, is, t', hlookup, hblk', hdone, hle, hcode⟩ :=
      h.placed l params after hfound
    rw [hgrown.labels] at hlookup hcode
    have hne : id' ≠ id := by
      rintro rfl
      exact hnew l (mem_placedLabels_of_findLabel hfound) hlookup
    rw [hbuilder, Builder.block?_extend_of_ne hne] at hblk'
    exact ⟨id', blk', next, is, t', hlookup, hblk', hdone, hkeeps.grows.length_le.trans hle, hcode⟩

end Steps

/-- A block becomes the current one, with nothing in scope. -/
def opening (s : LowerState) (id : BlockId) : LowerState :=
  { s.built { s.workspace.builder with current := some id } with scope := [] }

/-- The segment of a label is open, with the label's parameters in scope. -/
structure Opened (l : Label) (params : List (Var × Ty)) (id : BlockId) (blk : OpenBlock)
    (s s' : LowerState) : Prop where
  label : s.labels.lookup l = some id
  block : s.workspace.builder.block? id = some blk
  instructions : blk.instructions = []
  terminator : blk.terminator = none
  builder : s'.workspace.builder = { s.workspace.builder with current := some id }
  labels : s'.labels = s.labels
  values : s'.value? = Assignment.set (fun _ => none) (params.map Prod.fst) blk.params
  tracks : Tracks (.ofParams params) s'

section Opened

variable {l : Label} {params : List (Var × Ty)} {s' : LowerState} {id : BlockId}
  {blk : OpenBlock}

theorem Opened.keeps (h : Opened l params id blk s s₁) :
    s.workspace.builder.Keeps s₁.workspace.builder :=
  h.builder ▸ Builder.Keeps.current _ _

theorem Opened.block?_eq (h : Opened l params id blk s s₁) (other : BlockId) :
    s₁.workspace.builder.block? other = s.workspace.builder.block? other := by
  rw [h.builder]
  rfl

theorem Opened.openAt (h : Opened l params id blk s s₁) : s₁.workspace.builder.OpenAt id blk :=
  ⟨by rw [h.builder], (h.block?_eq id).trans h.block, h.terminator⟩

theorem Ready.opened (hready : Ready src (.label l params :: rest) s)
    (h : Opened l params id blk s s₁) : Ready src rest s₁ :=
  hready.tail h.labels h.keeps fun _ _ other _ => h.block?_eq other

theorem Ready.active_opened (hready : Ready src (.label l params :: rest) s)
    (h : Opened l params id blk s s₁) : Active (some (.ofParams params)) rest s₁ := by
  refine ⟨id, blk, h.openAt, h.tracks, ?_⟩
  intro m hm hlookup
  rw [h.labels] at hlookup
  obtain rfl := hready.injective m l id hlookup h.label
  have hdistinct := hready.distinct
  rw [placedLabels_label, List.nodup_cons] at hdistinct
  exact hdistinct.1 hm

theorem Lowered.of_label {l : Label} {params : List (Var × Ty)}
    (hcurrent : s.workspace.builder.current = none) (hopened : Opened l params id blk s s₁)
    (h : Lowered src rest s₁ s') : Lowered src (.label l params :: rest) s s' := by
  have hkeeps := hopened.keeps
  have hblocks := hopened.block?_eq
  have hlabels := hopened.labels
  have hopen := hopened.openAt
  refine ⟨h.closed, h.labels.trans hlabels, hkeeps.trans h.keeps, ?_, ?_, ?_⟩
  · intro other _ hlater
    rw [placedLabels_label, List.forall_mem_cons] at hlater
    have hne : id ≠ other := fun heq => hlater.1 (heq ▸ hopened.label)
    rw [h.others other (by simpa [hopen.current] using hne) (hlabels ▸ hlater.2), hblocks]
  · intro id' blk' hopen'
    simp [hopen'.current] at hcurrent
  · intro m params' after hfound
    rw [Source.findLabel] at hfound
    split at hfound
    · rename_i heq
      subst heq
      obtain ⟨rfl, rfl⟩ : params = params' ∧ rest = after := by simpa using hfound
      obtain ⟨is, t, hdone, hcoded⟩ := h.opened id blk hopen
      rw [hopened.instructions, List.nil_append] at hdone
      rw [hlabels, hopened.values] at hcoded
      exact ⟨id, blk, _, is, t, hopened.label, hopened.block, hdone, hkeeps.grows.length_le, hcoded⟩
    · obtain ⟨id', blk', next, is, t, hlookup', hblk', hdone, hle, hcode⟩ :=
        h.placed m params' after hfound
      rw [hlabels] at hlookup' hcode
      rw [hblocks] at hblk'
      exact ⟨id', blk', next, is, t, hlookup', hblk', hdone, hkeeps.grows.length_le.trans hle,
        hcode⟩

end Opened

/-- What an operation does that is lowered: it opens the block of its label, goes on in the open
block or ends it. -/
inductive Stepped (src : Source) (o : Op) (s s' : LowerState) : Prop
  | opened {l : Label} {params : List (Var × Ty)} {id : BlockId} {blk : OpenBlock} :
      o = .label l params → s.workspace.builder.current = none → Opened l params id blk s s' →
      Stepped src o s s'
  | advanced {g : Ledger} {id : BlockId} {blk : OpenBlock} :
      s.workspace.builder.OpenAt id blk → o.isLabel = false → Advanced src g o id s s' →
      Stepped src o s s'
  | ended {id : BlockId} {blk : OpenBlock} :
      s.workspace.builder.OpenAt id blk → o.isLabel = false → Ended src o id s s' →
      Stepped src o s s'

end LowerState

namespace Lower

variable {src : Source} {o : Op} {rest : List Op} {s : LowerState} {g : Ledger}
  {c : LowerContext} {opIndex : Nat}

theorem tracks_opening (id : BlockId) : Tracks (.ofParams []) (s.opening id) := by
  refine ⟨⟨by simp [opening], by simp [opening]⟩, ?_, ?_, ?_, ?_⟩ <;>
    simp [Ledger.ofParams, env, opening]

theorem exec_op_label {l : Label} (params : List (Var × Ty)) {id : BlockId} {blk : OpenBlock}
    (hcurrent : s.workspace.builder.current = none) (hlookup : s.labels.lookup l = some id)
    (hblk : s.workspace.builder.block? id = some blk) :
    (op opIndex (.label l params)).exec c s =
      (defineAll opIndex .blockParam 0 (params.zip blk.params)).exec c (s.opening id) := by
  have htarget : (target opIndex l).exec c s = .ok (id, s) := by
    rw [target, exec_bind, exec_get, ok_bind, hlookup]
    rfl
  have hblockParams : (build (Build.blockParams id)).exec c (s.opening id) =
      .ok (blk.params, s.opening id) :=
    exec_build _ _ (Build.blockParams_of_block? hblk)
  rw [op, exec_bind, exec_builder, ok_bind]
  simp only [Op.isLabel, Bool.not_true, Bool.false_and, Bool.false_eq_true, if_false]
  rw [openBlock, exec_bind, exec_builder, ok_bind]
  simp only [hcurrent, Option.isSome_none, Bool.false_eq_true, if_false]
  rw [exec_bind, htarget, ok_bind, exec_bind, exec_build _ _ (Build.switchTo_of_block? hblk),
    ok_bind, exec_bind, exec_modify, ok_bind, exec_bind]
  change ((build (Build.blockParams id)).exec c (s.opening id) >>= _) = _
  rw [hblockParams, ok_bind]

theorem op_label_decides {l : Label} {params : List (Var × Ty)}
    (hready : Ready src (.label l params :: rest) s)
    (hcurrent : s.workspace.builder.current = none) :
    Decides ((op opIndex (.label l params)).exec c s) (params.map Prod.fst).Nodup
      fun _ s' => ∃ id blk, Opened l params id blk s s' := by
  obtain ⟨id, blk, hlookup, hblk, hparams, hinstructions, hterminator⟩ := hready.exists_block
  rw [exec_op_label params hcurrent hlookup hblk]
  have htyped : List.Forall₂ (fun p x => (s.opening id).workspace.builder.draft.HasType x p.2)
      params blk.params := (List.forall₂_map_right_iff.mp hparams).flip
  have hlacks : (Ledger.ofParams []).Lacks params ↔ (params.map Prod.fst).Nodup :=
    ⟨fun h => h.distinct, fun h => ⟨by simp [Ledger.ofParams], h⟩⟩
  have hstored : ∀ i, (Storage.blockParam i).isMaterialized = true := fun _ => rfl
  refine ((defineAll_decides hstored htyped rfl
    (tracks_opening id)).congr hlacks).mono fun _ s' _ hbrought => ?_
  refine ⟨id, blk, hlookup, hblk, hinstructions, hterminator, hbrought.builder, hbrought.labels,
    hbrought.values, ?_⟩
  simpa [Ledger.define, Ledger.ofParams] using hbrought.tracks

theorem exec_op_unreachable (hlabel : o.isLabel = false)
    (hcurrent : s.workspace.builder.current = none) :
    (op opIndex o).exec c s = .error (.malformed c.function opIndex .unreachableOperation) := by
  rw [op.eq_def, exec_bind, exec_builder, ok_bind]
  simp only [hlabel, hcurrent, Option.isNone_none, Bool.not_false, Bool.and_self, if_true]
  rw [exec_bind, exec_malformed, error_bind]

theorem exec_op_unterminated {l : Label} {params : List (Var × Ty)} {id : BlockId}
    (hcurrent : s.workspace.builder.current = some id) :
    (op opIndex (.label l params)).exec c s =
      .error (.malformed c.function opIndex .unterminatedBlock) := by
  rw [op, exec_bind, exec_builder, ok_bind]
  simp only [Op.isLabel, Bool.not_true, Bool.false_and, Bool.false_eq_true, if_false]
  rw [openBlock, exec_bind, exec_builder, ok_bind]
  simp only [hcurrent, Option.isSome_some, if_true]
  rw [exec_bind, exec_malformed, error_bind]

theorem op_stepped {s₁ : LowerState} {segment : Option Ledger} (hregistry : c.registry = .default)
    (hready : Ready src (o :: rest) s) (hactive : Active segment (o :: rest) s)
    (hrun : (op opIndex o).exec c s = .ok ((), s₁)) :
    Stepped src o s s₁ ∧ Ready src rest s₁ ∧ ∃ segment', Active segment' rest s₁ := by
  cases hlabel : o.isLabel with
  | true =>
      obtain ⟨l, params, rfl⟩ := Op.exists_eq_label hlabel
      cases segment with
      | none =>
          have hclosed : s.workspace.builder.current = none := hactive
          obtain ⟨-, id, blk, hopened⟩ := (op_label_decides hready hclosed).of_ok hrun
          exact ⟨.opened rfl hclosed hopened, hready.opened hopened, _,
            hready.active_opened hopened⟩
      | some g =>
          obtain ⟨id, blk, hopen, -⟩ := hactive
          cases (exec_op_unterminated hopen.current).symm.trans hrun
  | false =>
      cases segment with
      | none => cases (exec_op_unreachable hlabel hactive).symm.trans hrun
      | some g =>
          obtain ⟨id, blk, hopen, ht, hnew⟩ := hactive
          rw [placedLabels_cons hlabel] at hnew
          cases hterm : o.isTerminator with
          | true =>
              obtain ⟨-, hended⟩ :=
                (op_terminator_decides hterm hready.declared hopen ht).of_ok hrun
              exact ⟨.ended hopen hlabel hended, hready.ended hopen hnew hended, _,
                hended.active rest⟩
          | false =>
              obtain ⟨-, hadvanced⟩ := (op_body_decides hregistry hlabel hterm hopen ht).of_ok hrun
              exact ⟨.advanced hopen hlabel hadvanced, hready.advanced hopen hnew hadvanced, _,
                hadvanced.active hopen hnew⟩

/-- What comes after the last operation: it goes on exactly if no segment is open. -/
def Finishes {α : Type} (c : LowerContext) (k : Lower α) : Prop :=
  ∀ s, Decides (k.exec c s) (s.workspace.builder.current = none) fun _ s' => s = s'

theorem Finishes.decides {α : Type} {k : Lower α} {segment : Option Ledger} (hk : Finishes c k)
    (hactive : Active segment [] s) :
    Decides (k.exec c s) (src.Accepts segment []) fun _ s' => Lowered src [] s s' := by
  cases segment with
  | none =>
      have hclosed : s.workspace.builder.current = none := hactive
      refine ((hk s).congr (by simp [hclosed, Source.Accepts])).mono ?_
      rintro _ s' - rfl
      refine ⟨hclosed, rfl, .refl _, fun _ _ _ => rfl, ?_, ?_⟩
      · intro id blk hopen
        simp [hopen.current] at hclosed
      · intro l params rest hfound
        simp [Source.findLabel] at hfound
  | some g =>
      obtain ⟨id, blk, hopen, -⟩ := hactive
      obtain ⟨e, he, hdefect⟩ := (hk s).defect (by simp [hopen.current])
      rw [he]
      exact .error hdefect fun h => h

/-- Operations are lowered exactly if the stream accepts them one by one. -/
theorem ops_decides {α : Type} {k : Lower α} {os : List Op} {segment : Option Ledger}
    (hregistry : c.registry = .default) (hk : Finishes c k) (hready : Ready src os s)
    (hactive : Active segment os s) :
    Decides ((ops opIndex os >>= fun _ => k).exec c s) (src.Accepts segment os)
      fun _ s' => Lowered src os s s' := by
  -- the ledger of the open segment, if one is open, and the state change along the stream
  induction os generalizing segment s opIndex with
  | nil =>
      rw [ops, pure_bind]
      exact hk.decides hactive
  | cons o rest ih =>
      rw [ops, bind_assoc, exec_bind]
      cases segment with
      | none =>
          have hclosed : s.workspace.builder.current = none := hactive
          cases o with
          | label l params =>
              refine (op_label_decides hready hclosed).bind ?_
              rintro _ s₁ - ⟨id, blk, hopened⟩
              refine (ih (hready.opened hopened) (hready.active_opened hopened)).mono ?_
              intro _ s' _ hlowered
              exact .of_label hclosed hopened hlowered
          | _ =>
              rw [exec_op_unreachable rfl hclosed]
              exact .error trivial fun h => h
      | some g =>
          obtain ⟨id, blk, hopen, ht, hnew⟩ := hactive
          cases hlabel : o.isLabel with
          | true =>
              obtain ⟨l, params, rfl⟩ := Op.exists_eq_label hlabel
              rw [exec_op_unterminated hopen.current]
              exact .error trivial not_accepts_label
          | false =>
              rw [placedLabels_cons hlabel] at hnew
              cases hterm : o.isTerminator with
              | true =>
                  rw [accepts_terminator_iff hlabel hterm]
                  refine (op_terminator_decides hterm hready.declared hopen ht).bind ?_
                  intro _ s₁ _ hended
                  refine (ih (hready.ended hopen hnew hended) (hended.active rest)).mono ?_
                  intro _ s' _ hlowered
                  exact .of_ended hlabel hopen hnew hended hlowered
              | false =>
                  rw [accepts_body_iff hlabel hterm]
                  refine (op_body_decides hregistry hlabel hterm hopen ht).bind ?_
                  intro _ s₁ _ hadvanced
                  refine (ih (hready.advanced hopen hnew hadvanced)
                    (hadvanced.active hopen hnew)).mono ?_
                  intro _ s' _ hlowered
                  exact .of_advanced hlabel hopen hnew hadvanced hlowered

end Lower

end FieldSSA
