import FieldSSA.Proofs.SegmentCode

namespace FieldSSA

/-- Values that leave a block with its terminator: branch arguments and returned values. -/
def Terminator.leaving : Terminator → List ValueId
  | br edge => edge.args
  | condBr _ onTrue onFalse => onTrue.args ++ onFalse.args
  | ret values => values

/-- Values of a block that have a place of their own. -/
inductive Block.Materialized (b : Block) : ValueId → Prop
  | param {v : ValueId} : v ∈ b.params → b.Materialized v
  | stored {ty : Ty} {args results : List ValueId} {v : ValueId} :
      .call (.storeTemp ty) args results ∈ b.instructions → v ∈ results → b.Materialized v
  | copied {ty : Ty} {arg v : ValueId} {results : List ValueId} :
      .call (.dup ty) [arg] results ∈ b.instructions → b.Materialized arg → v ∈ results →
        b.Materialized v
  | renamed {ty : Ty} {arg v : ValueId} {results : List ValueId} :
      .call (.rename ty) [arg] results ∈ b.instructions → b.Materialized arg → v ∈ results →
        b.Materialized v

section Segment

variable {src : Source} {labels : List (Label × BlockId)} {f : Function} {vals : Assignment}
  {g : Ledger} {next : Nat} {o : Op} {os : List Op} {is : List Instruction} {t : Terminator}
  {b : Block} {x : ValueId}

theorem Ends.gives_leaving (h : Ends src labels f vals o t) :
    vals.Gives o.leaving t.leaving := by
  cases h with
  | branch hedge => exact hedge.args
  | condBranch _ _ hedge hedge' => exact List.rel_append hedge.args hedge'.args
  | ret hargs _ => exact hargs

/-- The stored variables of a segment are defined, and their values are materialized. -/
structure Block.Holds (b : Block) (g : Ledger) (vals : Assignment) : Prop where
  defined : g.stored ⊆ g.defined.map Prod.fst
  materialized : ∀ v ∈ g.stored, ∀ x, vals v = some x → b.Materialized x

theorem Op.stores_subset_defs (stored : List Var) : o.stores stored ⊆ o.defs.map Prod.fst := by
  cases o with
  | dup ty src first second =>
      by_cases h : src ∈ stored <;> simp [Op.stores, Op.defs, h]
  | rename ty src dest => by_cases h : src ∈ stored <;> simp [Op.stores, Op.defs, h]
  | _ => simp [Op.stores, Op.defs]

/-- The results of moves to a temporary, and of copies and renamings of stored variables, are
materialized by the code of the operation. -/
theorem Op.materialized_of_stores {r : Recipe} {args results : List Var} {xs : List ValueId}
    {v : Var} (hcall : o.asCall? = some (r, args, results)) (hgives : vals.Gives args xs)
    (hcode : (r.code next xs).instructions ⊆ b.instructions)
    (hstored : ∀ v ∈ g.stored, ∀ x, vals v = some x → b.Materialized x)
    (hv : v ∈ o.stores g.stored)
    (hx : vals.set results (r.code next xs).outputs v = some x) : b.Materialized x := by
  cases o with
  | storeTemp ty src dest =>
      cases hcall
      have hout := Assignment.mem_of_set_of_mem rfl hv hx
      exact .stored (hcode List.mem_cons_self) hout
  | dup ty src first second =>
      cases hcall
      obtain ⟨arg, harg, rfl⟩ := hgives.exists_singleton
      rw [Op.stores] at hv
      split at hv
      · rename_i hsrc
        have hout := Assignment.mem_of_set_of_mem rfl hv hx
        exact .copied (hcode List.mem_cons_self) (hstored src hsrc arg harg) hout
      · simp at hv
  | rename ty src dest =>
      cases hcall
      obtain ⟨arg, harg, rfl⟩ := hgives.exists_singleton
      rw [Op.stores] at hv
      split at hv
      · rename_i hsrc
        have hout := Assignment.mem_of_set_of_mem rfl hv hx
        exact .renamed (hcode List.mem_cons_self) (hstored src hsrc arg harg) hout
      · simp at hv
  | _ => simp [Op.stores] at hv

theorem Block.Holds.record {r : Recipe} {args results : List Var} {xs : List ValueId}
    (h : b.Holds g vals) (hadmits : g.Admits src o)
    (hcall : o.asCall? = some (r, args, results)) (hlen : r.results.length = results.length)
    (hgives : vals.Gives args xs) (hcode : (r.code next xs).instructions ⊆ b.instructions) :
    b.Holds (g.record src o) (vals.set results (r.code next xs).outputs) := by
  have hresults : o.defs.map Prod.fst = results := by
    rw [Op.defs_of_asCall? hcall, List.map_fst_zip (Nat.le_of_eq hlen.symm)]
  constructor
  · rw [Ledger.record, List.map_append]
    apply List.append_subset.mpr
    exact ⟨List.subset_append_of_subset_left _ h.defined,
      List.subset_append_of_subset_right _ (Op.stores_subset_defs _)⟩
  · intro v hv x hx
    rcases List.mem_append.mp hv with hold | hnew
    · -- a stored variable is not defined again
      have hnot : v ∉ results := by
        rw [← hresults]
        exact hadmits.defs.fresh (h.defined hold)
      rw [Assignment.set_of_notMem hnot] at hx
      exact h.materialized v hold x hx
    · exact Op.materialized_of_stores hcall hgives hcode h.materialized hnew hx

theorem Coded.leaving_materialized (h : Coded src labels f vals next os is t)
    (haccepts : src.Accepts (some g) os) (hholds : b.Holds g vals)
    (hcode : is ⊆ b.instructions) : ∀ x ∈ t.leaving, b.Materialized x := by
  induction h generalizing g with
  | last hends =>
      intro x hx
      obtain ⟨v, hv, hvx⟩ := hends.gives_leaving.exists_mem hx
      exact hholds.materialized v (haccepts.2.1.leaving hv) x hvx
  | step hcall hlen hgives _ _ _ ih =>
      obtain ⟨hadmits, haccepts⟩ := (Source.accepts_call_iff hcall).mp haccepts
      obtain ⟨hown, hlater⟩ := List.append_subset.mp hcode
      exact ih haccepts (hholds.record hadmits hcall hlen hgives hown) hlater

end Segment

namespace Source

/-- Only materialized values leave the blocks of emitted functions. -/
theorem emit_leaving_materialized (s : Source) (c : Config) (f : Function)
    (hemit : s.emit .default c = .ok f) :
    ∀ b ∈ f.blocks, ∀ v ∈ b.terminator.leaving, b.Materialized v := by
  intro b hb
  obtain ⟨-, labels, hsegments⟩ := exists_segment_of_emit hemit
  obtain ⟨params, os, -, haccepts, hcoded⟩ := hsegments b hb
  obtain ⟨next, -, hcode⟩ := hcoded.code
  apply hcode.leaving_materialized haccepts _ (List.Subset.refl _)
  constructor
  · exact List.Subset.refl _
  · intro v _ x hx
    exact .param (mem_of_set_eq_some hx)

theorem euclid_leaving_materialized :
    ∃ f, euclid.emit .default {} = .ok f ∧
      ∀ b ∈ f.blocks, ∀ v ∈ b.terminator.leaving, b.Materialized v := by
  obtain ⟨f, hf⟩ := exists_emit_of_wellFormed (c := {}) rfl euclid_wellFormed
  exact ⟨f, hf, emit_leaving_materialized euclid {} f hf⟩

end Source

end FieldSSA
