import FieldSSA.Proofs.LinearUse

namespace FieldSSA

/-- The ledger of a segment after its terminator. -/
def Source.settled (s : Source) : Ledger → List Op → Ledger
  | g, [] => g
  | g, o :: rest => if o.isTerminator then g.record s o else s.settled (g.record s o) rest

/-- A segment reads every variable that it has. -/
def Source.ReadsAll (s : Source) (seg : Segment) : Prop :=
  ∀ v ∈ (seg.params ++ seg.body.flatMap Op.defs).map Prod.fst,
    v ∈ (seg.ops.flatMap s.reads).map Prod.fst

instance (s : Source) (seg : Segment) : Decidable (s.ReadsAll seg) :=
  inferInstanceAs (Decidable (∀ v ∈ (seg.params ++ seg.body.flatMap Op.defs).map Prod.fst,
    v ∈ (seg.ops.flatMap s.reads).map Prod.fst))

theorem exists_mem_zip {α β : Type} {xs : List α} {ys : List β} {y : β}
    (hlen : ys.length ≤ xs.length) (hy : y ∈ ys) : ∃ x, (x, y) ∈ xs.zip ys := by
  rw [← List.map_snd_zip hlen] at hy
  obtain ⟨⟨x, _⟩, hp, rfl⟩ := List.mem_map.mp hy
  exact ⟨x, hp⟩

theorem Assignment.set_of_mem_zip {vals : Assignment} {vars : List Var} {values : List ValueId}
    {v : Var} {x : ValueId} (hnodup : vars.Nodup) (h : (v, x) ∈ vars.zip values) :
    vals.set vars values v = some x := by
  induction vars generalizing vals values with
  | nil => simp at h
  | cons w vars ih =>
      cases values with
      | nil => simp at h
      | cons y values =>
          rw [List.nodup_cons] at hnodup
          rw [← set_set_of_notMem vals hnodup.1]
          rw [List.zip_cons_cons, List.mem_cons] at h
          rcases h with heq | hrest
          · obtain ⟨rfl, rfl⟩ := Prod.mk.inj heq
            rw [set_of_notMem hnodup.1, set_singleton, if_pos rfl]
          · exact ih hnodup.2 hrest

/-- The variables that have values or were used are defined. -/
structure Ledger.Covers (g : Ledger) (vals : Assignment) : Prop where
  used : g.used ⊆ g.defined.map Prod.fst
  values : ∀ v x, vals v = some x → v ∈ g.defined.map Prod.fst

section Block

variable {src : Source} {labels : List (Label × BlockId)} {f : Function} {vals : Assignment}
  {g : Ledger} {next : Nat} {os : List Op} {is : List Instruction} {t : Terminator} {x : ValueId}

section Operation

variable {o : Op} {r : Recipe} {args results : List Var} {xs : List ValueId}
  {outputs : List ValueId} (hcovers : g.Covers vals) (hadmits : g.Admits src o)
  (hdefs : o.defs.map Prod.fst = results)

include hcovers hadmits hdefs

theorem Ledger.Covers.record : (g.record src o).Covers (vals.set results outputs) := by
  constructor
  · simp only [Ledger.record, List.map_append]
    refine List.append_subset.mpr ⟨?_, ?_⟩
    · exact List.subset_append_of_subset_left _ hcovers.used
    · exact List.subset_append_of_subset_left _ (List.map_subset _ hadmits.reads.defined)
  · intro v x hx
    simp only [Ledger.record, List.map_append, hdefs, List.mem_append]
    rcases Assignment.mem_zip_of_set hx with hzip | hold
    · exact .inr (List.of_mem_zip hzip).1
    · exact .inl (hcovers.values v x hold)

theorem Ledger.Leaves.record {v : Var} (hused : v ∉ g.used) (hx : vals v = some x)
    (hreads : v ∉ (src.reads o).map Prod.fst) :
    (g.record src o).Leaves (vals.set results outputs) x := by
  have hnew : v ∉ results := by
    rw [← hdefs]
    exact hadmits.defs.fresh (hcovers.values v x hx)
  refine ⟨v, ?_, by rwa [Assignment.set_of_notMem hnew]⟩
  simp [Ledger.record, hused, hreads]

theorem Ledger.leaves_of_output (hlen : outputs.length ≤ results.length) (hx : x ∈ outputs) :
    (g.record src o).Leaves (vals.set results outputs) x := by
  obtain ⟨v, hv⟩ := exists_mem_zip hlen hx
  have hresult : v ∈ o.defs.map Prod.fst := hdefs ▸ (List.of_mem_zip hv).1
  have hnew : v ∉ g.defined.map Prod.fst := fun hold => hadmits.defs.fresh hold hresult
  refine ⟨v, ?_, Assignment.set_of_mem_zip (hdefs ▸ hadmits.defs.distinct) hv⟩
  simp only [Ledger.record, List.mem_append, not_or]
  exact ⟨fun hused => hnew (hcovers.used hused),
    fun hread => hnew (List.map_subset _ hadmits.reads.defined hread)⟩

end Operation

/-- A value that the code of a segment finds or creates is read by it, or is that of a variable
which the segment never reads. -/
theorem Coded.read_or_left (h : Coded src labels f vals next os is t)
    (haccepts : src.Accepts (some g) os) (hcovers : g.Covers vals)
    (hx : g.Leaves vals x ∨ x ∈ is.flatMap Instruction.results) :
    x ∈ is.flatMap Instruction.operands ++ t.operands ∨
      ∃ v ∈ (src.settled g os).defined.map Prod.fst, v ∉ (src.settled g os).used := by
  induction h generalizing g with
  | @last vals next o rest t hends =>
      have hsettled : src.settled g (o :: rest) = g.record src o := by
        rw [Source.settled, if_pos hends.isTerminator]
      rw [hsettled, List.flatMap_nil, List.nil_append]
      rcases hx with ⟨v, hused, hvx⟩ | hx
      · by_cases hread : v ∈ (src.reads o).map Prod.fst
        · obtain ⟨y, hy, hvy⟩ := exists_mem_of_forall₂ hends.gives_operands hread
          obtain rfl : x = y := Option.some.inj (hvx.symm.trans hvy)
          exact .inl hy
        · refine .inr ⟨v, ?_, by simp [Ledger.record, hused, hread]⟩
          exact List.map_subset _ (List.subset_append_left _ _) (hcovers.values v x hvx)
      · simp at hx
  | @step vals next o rest r args results xs is t hcall hlen hargs htypes hnew _ ih =>
      have hparams : xs.length = r.params.length := htypes.length_eq
      have hreads : (src.reads o).map Prod.fst = args := by
        rw [Source.reads_of_asCall? hcall, List.map_fst_zip]
        exact Nat.le_of_eq (hargs.length_eq.trans hparams)
      have hdefs : o.defs.map Prod.fst = results := by
        rw [Op.defs_of_asCall? hcall, List.map_fst_zip (Nat.le_of_eq hlen.symm)]
      have hsettled : src.settled g (o :: rest) = src.settled (g.record src o) rest := by
        rw [Source.settled, if_neg (by simp [Op.isTerminator_of_asCall? hcall])]
      obtain ⟨hadmits, haccepts⟩ := (Source.accepts_call_iff hcall).mp haccepts
      rw [hsettled, List.flatMap_append, Recipe.code_operands hparams, List.append_assoc]
      -- what is left after the operation is read by the rest of the code or left at the end
      have hlater (hx : (g.record src o).Leaves (vals.set results (r.code next xs).outputs) x ∨
          x ∈ is.flatMap Instruction.results) :=
        (ih haccepts (hcovers.record hadmits hdefs) hx).imp_left
          (List.mem_append_right (xs ++ r.scratch next))
      rcases hx with ⟨v, hused, hvx⟩ | hx
      · by_cases hread : v ∈ args
        · obtain ⟨y, hy, hvy⟩ := exists_mem_of_forall₂ hargs hread
          obtain rfl : x = y := Option.some.inj (hvx.symm.trans hvy)
          exact .inl (List.mem_append_left _ (List.mem_append_left _ hy))
        · exact hlater (.inl (.record hcovers hadmits hdefs hused hvx (hreads ▸ hread)))
      · rw [List.flatMap_append, Recipe.code_results hparams,
          ← Recipe.scratch_append_outputs hparams, List.append_assoc] at hx
        rcases List.mem_append.mp hx with hscratch | hx
        · exact .inl (List.mem_append_left _ (List.mem_append_right _ hscratch))
        · rcases List.mem_append.mp hx with hout | hrest
          · have hcount : (r.code next xs).outputs.length ≤ results.length := by
              have houtputs := (Recipe.code_typed htypes (List.Subset.refl xs) hnew).2
              rw [houtputs.length_eq, hlen]
            exact hlater (.inl (Ledger.leaves_of_output hcovers hadmits hdefs hcount hout))
          · exact hlater (.inr hrest)

/-- A block reads all that it defines if its segment has no unread variable at its end. -/
theorem BlockCoded.definitions_subset_uses {params : List (Var × Ty)} {b : Block}
    (h : BlockCoded src labels f params os b) (hparams : (params.map Prod.fst).Nodup)
    (haccepts : src.Accepts (some (.ofParams params)) os)
    (hread : ∀ v ∈ (src.settled (.ofParams params) os).defined.map Prod.fst,
      v ∈ (src.settled (.ofParams params) os).used) : b.definitions ⊆ b.uses := by
  obtain ⟨next, -, hcoded⟩ := h.code
  intro x hx
  have hcovers : (Ledger.ofParams params).Covers
      (Assignment.set (fun _ => none) (params.map Prod.fst) b.params) := by
    refine ⟨by simp [Ledger.ofParams], fun v x hx => ?_⟩
    rcases Assignment.mem_zip_of_set hx with hzip | hnone
    · exact (List.of_mem_zip hzip).1
    · simp at hnone
  have hfound : (Ledger.ofParams params).Leaves
        (Assignment.set (fun _ => none) (params.map Prod.fst) b.params) x ∨
      x ∈ b.instructions.flatMap Instruction.results := by
    refine (List.mem_append.mp hx).imp_left fun hparam => ?_
    have hlen : b.params.length ≤ (params.map Prod.fst).length := by
      rw [h.typed.length_eq, List.length_map, List.length_map]
    obtain ⟨v, hv⟩ := exists_mem_zip hlen hparam
    exact ⟨v, by simp [Ledger.ofParams], Assignment.set_of_mem_zip hparams hv⟩
  rcases hcoded.read_or_left haccepts hcovers hfound with hused | ⟨v, hv, hnot⟩
  · exact hused
  · exact absurd (hread v hv) hnot

end Block

theorem Function.verify_eq_of_unused {f : Function} (herrors : f.verify.errors = [])
    (hunused : f.unused = []) : f.verify = ⟨[], []⟩ := by
  cases hentry : f.entry? with
  | none => simp [verify, hentry] at herrors
  | some entry =>
      simp only [verify, hentry] at herrors ⊢
      rw [herrors, hunused]

namespace Source

variable {s : Source} {seg : Segment} {y : Layout} {c : Config} {f : Function}

theorem settled_append {g : Ledger} {body more : List Op} {last : Op}
    (hbody : ∀ o ∈ body, o.isTerminator = false) (hlast : last.isTerminator = true) :
    s.settled g (body ++ last :: more) = (body ++ [last]).foldl (Ledger.record s) g := by
  induction body generalizing g with
  | nil => simp [settled, hlast]
  | cons o body ih =>
      obtain ⟨ho, hbody⟩ := List.forall_mem_cons.mp hbody
      rw [List.cons_append, settled, if_neg (by simp [ho]), ih hbody]
      rfl

/-- A segment that reads all of its variables leaves none unread. -/
theorem ReadsAll.settled (h : s.ReadsAll seg) (hok : s.SegmentOk seg) (more : List Op) :
    ∀ v ∈ (s.settled (.ofParams seg.params) (seg.ops ++ more)).defined.map Prod.fst,
      v ∈ (s.settled (.ofParams seg.params) (seg.ops ++ more)).used := by
  have hops : seg.ops ++ more = seg.body ++ seg.last :: more := by simp [Segment.ops]
  rw [hops, settled_append (fun o ho => (hok.body o ho).2) hok.last, foldl_record]
  intro v hv
  simp only [Ledger.ofParams, List.nil_append]
  refine h v ?_
  simpa [Ledger.ofParams, Op.defs_of_isTerminator hok.last] using hv

/-- The segments of a layout are where the segments of its source begin. -/
theorem LaidOut.exists_segment_of_begins (hy : s.LaidOut y) {params : List (Var × Ty)}
    {os : List Op} (h : s.Begins params os) :
    ∃ seg more, (seg = y.entry ∨ ∃ l, (l, seg) ∈ y.labelled) ∧ seg.params = params ∧
      seg.ops ++ more = os := by
  cases h with
  | entry => exact ⟨y.entry, Layout.labelledOps y.labelled, .inl rfl, hy.params, hy.ops⟩
  | @label l params rest hfound =>
      have hplaced := mem_placedLabels_of_findLabel hfound
      rw [hy.placedLabels] at hplaced
      obtain ⟨⟨_, seg⟩, hseg, rfl⟩ := List.mem_map.mp hplaced
      obtain ⟨more, hplace⟩ := hy.findLabel hseg
      obtain ⟨hparams, hrest⟩ := Prod.mk.inj (Option.some.inj (hplace.symm.trans hfound))
      exact ⟨seg, more, .inr ⟨_, hseg⟩, hparams, hrest⟩

/-- A source whose segments read all of their variables is emitted without unused values, so
verification reports nothing. -/
theorem verify_eq_of_readsAll (hy : s.LaidOut y) (hentry : s.ReadsAll y.entry)
    (hlabelled : ∀ p ∈ y.labelled, s.ReadsAll p.2) (h : s.emit .default c = .ok f) :
    f.verify = ⟨[], []⟩ := by
  obtain ⟨hlowerable, hreached, labels, htranslates⟩ :=
    exists_translates_of_emit (validate_of_emit h) h
  refine Function.verify_eq_of_unused ?_ ?_
  · rw [htranslates.verify_errors, hreached, List.map_nil]
  · rw [Function.unused, List.filter_eq_nil_iff]
    intro d hd
    obtain ⟨b, hb, hd⟩ := List.mem_flatMap.mp hd
    obtain ⟨x, hx, rfl⟩ := List.mem_map.mp hd
    obtain ⟨params, os, hbegins, hcoded⟩ := htranslates.exists_blockCoded hb
    obtain ⟨hparams, haccepts⟩ := hlowerable.accepts_of_begins hbegins
    obtain ⟨seg, more, hseg, rfl, rfl⟩ := hy.exists_segment_of_begins hbegins
    obtain ⟨hok, hreads⟩ : s.SegmentOk seg ∧ s.ReadsAll seg := by
      rcases hseg with rfl | ⟨l, hmem⟩
      · exact ⟨hy.entry, hentry⟩
      · exact ⟨hy.labelled _ hmem, hlabelled _ hmem⟩
    have huse := hcoded.definitions_subset_uses hparams haccepts (hreads.settled hok more) hx
    simpa using ⟨b, hb, huse⟩

end Source

end FieldSSA
