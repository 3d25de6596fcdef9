import FieldSSA.Proofs.Acceptance

namespace FieldSSA

namespace Source

variable {s : Source} {params : List (Var × Ty)} {os : List Op} {g : Ledger}

theorem accepts_of_findLabel {segment : Option Ledger} {l : Label} {rest : List Op}
    (h : s.Accepts segment os) (hfound : findLabel l os = some (params, rest)) :
    (params.map Prod.fst).Nodup ∧ s.Accepts (some (.ofParams params)) rest := by
  induction os generalizing segment with
  | nil => simp [findLabel] at hfound
  | cons o os ih =>
      cases segment with
      | none =>
          cases o with
          | label m params' =>
              rw [findLabel] at hfound
              split at hfound
              · obtain ⟨rfl, rfl⟩ : params' = params ∧ os = rest := by simpa using hfound
                exact h
              · exact ih h.2 hfound
          | _ => exact h.elim
      | some g =>
          rw [findLabel_cons h.1] at hfound
          exact ih h.2.2 hfound

theorem Lowerable.accepts_of_begins (h : s.Lowerable) (hbegins : s.Begins params os) :
    (params.map Prod.fst).Nodup ∧ s.Accepts (some (.ofParams params)) os := by
  cases hbegins with
  | entry => exact ⟨h.params, h.accepts⟩
  | label hfound => exact accepts_of_findLabel h.accepts hfound

theorem accepts_call_iff {o : Op} {rest : List Op} {r : Recipe} {args results : List Var}
    (hcall : o.asCall? = some (r, args, results)) :
    s.Accepts (some g) (o :: rest) ↔ g.Admits s o ∧ s.Accepts (some (g.record s o)) rest := by
  have hlabel : o.isLabel = false := by
    cases o with
    | label => simp [Op.asCall?] at hcall
    | _ => rfl
  exact accepts_body_iff hlabel (Op.isTerminator_of_asCall? hcall)

theorem validate_of_emit {registry : Registry} {c : Config} {f : Function}
    (h : s.emit registry c = .ok f) : c.validate = .ok () := by
  cases hc : c.validate with
  | ok u => rfl
  | error e =>
      have hdeclare : Emitter.declare { registry, config := c } s.signature =
          .error (.config e) := by
        simp only [Emitter.declare, hc, Except.mapError]
        rfl
      rw [emit, emitReporting, hdeclare] at h
      cases h

/-- The blocks of an emitted function have the code of accepted segments. -/
theorem exists_segment_of_emit {c : Config} {f : Function} (h : s.emit .default c = .ok f) :
    f.verify.errors = [] ∧ ∃ labels, ∀ b ∈ f.blocks, ∃ params os,
      (params.map Prod.fst).Nodup ∧ s.Accepts (some (.ofParams params)) os ∧
      BlockCoded s labels f params os b := by
  obtain ⟨hlowerable, hreached, labels, htranslates⟩ :=
    exists_translates_of_emit (validate_of_emit h) h
  refine ⟨by rw [htranslates.verify_errors, hreached, List.map_nil], labels, ?_⟩
  intro b hb
  obtain ⟨params, os, hbegins, hcoded⟩ := htranslates.exists_blockCoded hb
  obtain ⟨hparams, haccepts⟩ := hlowerable.accepts_of_begins hbegins
  exact ⟨params, os, hparams, haccepts, hcoded⟩

end Source

/-- Variables with their values, in position. -/
abbrev Assignment.Gives (vals : Assignment) (vars : List Var) (values : List ValueId) : Prop :=
  List.Forall₂ (fun v x => vals v = some x) vars values

/-- Distinct variables have distinct values, which are numbered below `next`. -/
structure Assignment.Separates (vals : Assignment) (next : Nat) : Prop where
  bounded : ∀ v x, vals v = some x → x.index < next
  injective : ∀ v w x, vals v = some x → vals w = some x → v = w

namespace Assignment

variable {vals : Assignment} {vars : List Var} {values : List ValueId} {v : Var} {x : ValueId}
  {next next' : Nat}

theorem mem_of_set_of_mem (hlen : vars.length = values.length) (hv : v ∈ vars)
    (h : vals.set vars values v = some x) : x ∈ values := by
  have hsome : (vars.zip values).lookup v ≠ none := by
    rw [Ne, List.lookup_eq_none_iff]
    rw [← List.map_fst_zip (Nat.le_of_eq hlen)] at hv
    obtain ⟨p, hp, rfl⟩ := List.mem_map.mp hv
    intro hnone
    simpa using hnone p hp
  obtain ⟨y, hy⟩ := Option.ne_none_iff_exists'.mp hsome
  rw [set, hy, Option.some_or] at h
  exact (List.of_mem_zip (mem_of_lookup_eq_some (hy.trans h))).2

theorem eq_of_mem_zip {w : Var} (hnodup : values.Nodup) (hv : (v, x) ∈ vars.zip values)
    (hw : (w, x) ∈ vars.zip values) : v = w := by
  induction vars generalizing values with
  | nil => simp at hv
  | cons u vars ih =>
      cases values with
      | nil => simp at hv
      | cons y values =>
          rw [List.nodup_cons] at hnodup
          rw [List.zip_cons_cons, List.mem_cons] at hv hw
          rcases hv with hv | hv
          · obtain ⟨rfl, rfl⟩ := Prod.mk.inj hv
            rcases hw with hw | hw
            · exact (Prod.mk.inj hw).1.symm
            · exact absurd (List.of_mem_zip hw).2 hnodup.1
          · rcases hw with hw | hw
            · obtain ⟨rfl, rfl⟩ := Prod.mk.inj hw
              exact absurd (List.of_mem_zip hv).2 hnodup.1
            · exact ih hnodup.2 hv hw

theorem separates_none : Separates (fun _ => none) 0 :=
  ⟨by simp, by simp⟩

/-- New values, all numbered from `next` on, keep variables apart. -/
theorem Separates.set (h : vals.Separates next) (hle : next ≤ next') (hnodup : values.Nodup)
    (hnew : ∀ x ∈ values, next ≤ x.index ∧ x.index < next') :
    (vals.set vars values).Separates next' := by
  constructor
  · intro v x hx
    rcases mem_zip_of_set hx with hzip | hold
    · exact (hnew x (List.of_mem_zip hzip).2).2
    · exact (h.bounded v x hold).trans_le hle
  · intro v w x hv hw
    rcases mem_zip_of_set hv with hzip | hold <;> rcases mem_zip_of_set hw with hzip' | hold'
    · exact eq_of_mem_zip hnodup hzip hzip'
    · exact absurd (h.bounded w x hold') (Nat.not_lt.mpr (hnew x (List.of_mem_zip hzip).2).1)
    · exact absurd (h.bounded v x hold) (Nat.not_lt.mpr (hnew x (List.of_mem_zip hzip').2).1)
    · exact h.injective v w x hold hold'

theorem Gives.exists_mem (h : vals.Gives vars values) (hx : x ∈ values) :
    ∃ v ∈ vars, vals v = some x :=
  exists_mem_of_forall₂ h.flip hx

theorem Gives.exists_singleton (h : vals.Gives [v] values) :
    ∃ x, vals v = some x ∧ values = [x] := by
  rcases h with _ | ⟨hx, hrest⟩
  cases hrest
  exact ⟨_, hx, rfl⟩

theorem Gives.nodup (h : vals.Gives vars values) (hsep : vals.Separates next)
    (hnodup : vars.Nodup) : values.Nodup := by
  induction h with
  | nil => exact List.nodup_nil
  | @cons v x vars values hv hrest ih =>
      rw [List.nodup_cons] at hnodup ⊢
      refine ⟨?_, ih hnodup.2⟩
      intro hx
      obtain ⟨w, hw, hwx⟩ := Gives.exists_mem hrest hx
      exact hnodup.1 (hsep.injective v w x hv hwx ▸ hw)

end Assignment

namespace Recipe

/-- Values that a recipe creates for its own use. -/
def scratch (next : Nat) : Recipe → List ValueId
  | zeroTest _ => [⟨next⟩]
  | _ => []

variable {r : Recipe} {next : Nat} {args : List ValueId}

theorem code_operands (hlen : args.length = r.params.length) :
    (r.code next args).instructions.flatMap Instruction.operands = args ++ r.scratch next := by
  cases r.shaped hlen rfl with
  | constant | helper | comparison | zeroTest => rfl

/-- The values that a recipe creates are those for its own use and its outputs. -/
theorem scratch_append_outputs (hlen : args.length = r.params.length) :
    r.scratch next ++ (r.code next args).outputs =
      numbered next (r.code next args).types.length := by
  cases r.shaped hlen rfl with
  | constant | helper | comparison | zeroTest => rfl

theorem index_of_mem_created (hlen : args.length = r.params.length) {x : ValueId}
    (hx : x ∈ r.scratch next ∨ x ∈ (r.code next args).outputs) :
    next ≤ x.index ∧ x.index < next + (r.code next args).types.length := by
  rwa [← List.mem_append, scratch_append_outputs hlen, mem_numbered_iff] at hx

theorem nodup_created (hlen : args.length = r.params.length) :
    (r.scratch next).Nodup ∧ (r.code next args).outputs.Nodup ∧
      (r.scratch next).Disjoint (r.code next args).outputs := by
  rw [← List.nodup_append', scratch_append_outputs hlen]
  exact nodup_numbered _ _

end Recipe

section Ends

variable {src : Source} {labels : List (Label × BlockId)} {f : Function} {vals : Assignment}
  {o : Op} {t : Terminator}

theorem EdgeCoded.map_fst_reads {l : Label} {args : List Var} {edge : Edge}
    (h : EdgeCoded src labels f vals l args edge) :
    (args.zip ((src.labelTypes? l).getD [])).map Prod.fst = args := by
  obtain ⟨types, htypes, hargs⟩ := h.typed
  rw [htypes, Option.getD_some, List.map_fst_zip]
  exact Nat.le_of_eq (h.args.length_eq.trans hargs.length_eq)

/-- The operands of a terminator are the values of the variables that its operation reads. -/
theorem Ends.gives_operands (h : Ends src labels f vals o t) :
    vals.Gives ((src.reads o).map Prod.fst) t.operands := by
  cases h with
  | branch hedge =>
      rw [Source.reads, hedge.map_fst_reads]
      exact hedge.args
  | condBranch hcond _ hedge hedge' =>
      rw [Source.reads, List.map_cons, List.map_append, hedge.map_fst_reads,
        hedge'.map_fst_reads]
      exact .cons hcond (List.rel_append hedge.args hedge'.args)
  | ret hargs htypes =>
      rw [Source.reads, List.map_fst_zip]
      · exact hargs
      · exact Nat.le_of_eq (hargs.length_eq.trans htypes.length_eq)

end Ends

end FieldSSA
