import FieldSSA.Proofs.Stream

namespace FieldSSA

theorem forall_split_cons {α : Type} {P : List α → α → Prop} {a : α} {as : List α} :
    (∀ before x after, a :: as = before ++ x :: after → P before x) ↔
      P [] a ∧ ∀ before x after, as = before ++ x :: after → P (a :: before) x := by
  constructor
  · intro h
    refine ⟨h [] a as rfl, fun before x after heq => h (a :: before) x after ?_⟩
    rw [heq, List.cons_append]
  · rintro ⟨hhead, htail⟩ before x after heq
    cases before with
    | nil =>
        obtain ⟨rfl, -⟩ := List.cons.inj heq
        exact hhead
    | cons b before =>
        rw [List.cons_append] at heq
        obtain ⟨rfl, hrest⟩ := List.cons.inj heq
        exact htail before x after hrest

/-- Parts are distinct and disjoint exactly if each is new at its place. -/
theorem nodup_append_flatMap_iff {α β : Type} {f : α → List β} {old : List β} {as : List α} :
    (old ++ as.flatMap f).Nodup ↔ old.Nodup ∧ ∀ before a after, as = before ++ a :: after →
      (old ++ before.flatMap f).Disjoint (f a) ∧ (f a).Nodup := by
  induction as generalizing old with
  | nil => simp
  | cons a rest ih =>
      rw [List.flatMap_cons, ← List.append_assoc, ih, List.nodup_append',
        forall_split_cons (P := fun before a =>
          (old ++ before.flatMap f).Disjoint (f a) ∧ (f a).Nodup)]
      simp only [List.flatMap_nil, List.append_nil, List.flatMap_cons, List.append_assoc]
      tauto

theorem Op.defs_of_isTerminator {o : Op} (h : o.isTerminator = true) : o.defs = [] := by
  cases o with
  | branch | condBranch | ret => rfl
  | _ => simp [Op.isTerminator] at h

theorem Op.leaving_of_not_isTerminator {o : Op} (h : o.isTerminator = false) :
    o.leaving = [] := by
  cases o with
  | branch | condBranch | ret => simp [Op.isTerminator] at h
  | _ => rfl

theorem Op.isLabel_of_isTerminator {o : Op} (h : o.isTerminator = true) : o.isLabel = false := by
  cases o with
  | label => simp [Op.isTerminator] at h
  | _ => rfl

section NoLabel

variable {os : List Op} (h : ∀ o ∈ os, o.isLabel = false)

include h

theorem placedLabels_append (rest : List Op) : placedLabels (os ++ rest) = placedLabels rest := by
  induction os with
  | nil => rfl
  | cons o os ih =>
      obtain ⟨ho, hos⟩ := List.forall_mem_cons.mp h
      rw [List.cons_append, placedLabels_cons ho, ih hos]

theorem findLabel_append (l : Label) (rest : List Op) :
    Source.findLabel l (os ++ rest) = Source.findLabel l rest := by
  induction os with
  | nil => rfl
  | cons o os ih =>
      obtain ⟨ho, hos⟩ := List.forall_mem_cons.mp h
      rw [List.cons_append, findLabel_cons ho, ih hos]

end NoLabel

namespace Source

variable {s : Source} {g : Ledger} {params : List (Var × Ty)} {os : List Op} {seg : Segment}

/-- Every operation is admitted when its turn comes. -/
def AdmitsAll (s : Source) (g : Ledger) (os : List Op) : Prop :=
  ∀ before o after, os = before ++ o :: after → (before.foldl (Ledger.record s) g).Admits s o

theorem admitsAll_cons_iff {o : Op} :
    s.AdmitsAll g (o :: os) ↔ g.Admits s o ∧ s.AdmitsAll (g.record s o) os :=
  forall_split_cons (P := fun before o => (before.foldl (Ledger.record s) g).Admits s o)

theorem admitsAll_nil : s.AdmitsAll g [] := by
  intro before o after heq
  simp at heq

instance decidableAdmitsAll (s : Source) : (g : Ledger) → (os : List Op) →
    Decidable (s.AdmitsAll g os)
  | _, [] => isTrue admitsAll_nil
  | g, o :: os =>
      have := decidableAdmitsAll s (g.record s o) os
      decidable_of_iff _ admitsAll_cons_iff.symm

/-- An open segment goes on to its terminator, after which no segment is open. -/
theorem accepts_some_iff :
    s.Accepts (some g) os ↔ ∃ body last rest, os = body ++ last :: rest ∧
      (∀ o ∈ body, o.isLabel = false ∧ o.isTerminator = false) ∧ last.isTerminator = true ∧
      s.AdmitsAll g (body ++ [last]) ∧ s.Accepts none rest := by
  -- a label cannot stand in an open segment, and a terminator closes it
  induction os generalizing g with
  | nil => simp [Accepts]
  | cons o os ih =>
      constructor
      · intro h
        cases hlabel : o.isLabel with
        | true =>
            obtain ⟨l, params, rfl⟩ := Op.exists_eq_label hlabel
            exact absurd h not_accepts_label
        | false =>
            cases hterm : o.isTerminator with
            | true =>
                obtain ⟨hadmits, hrest⟩ := (accepts_terminator_iff hlabel hterm).mp h
                refine ⟨[], o, os, rfl, by simp, hterm, ?_, hrest⟩
                exact admitsAll_cons_iff.mpr ⟨hadmits, admitsAll_nil⟩
            | false =>
                obtain ⟨hadmits, hrest⟩ := (accepts_body_iff hlabel hterm).mp h
                obtain ⟨body, last, rest, rfl, hbody, hlast, hall, hnone⟩ := ih.mp hrest
                refine ⟨o :: body, last, rest, rfl, ?_, hlast, ?_, hnone⟩
                · exact List.forall_mem_cons.mpr ⟨⟨hlabel, hterm⟩, hbody⟩
                · exact admitsAll_cons_iff.mpr ⟨hadmits, hall⟩
      · rintro ⟨body, last, rest, heq, hbody, hlast, hall, hnone⟩
        cases body with
        | nil =>
            obtain ⟨rfl, rfl⟩ := List.cons.inj heq
            rw [accepts_terminator_iff (Op.isLabel_of_isTerminator hlast) hlast]
            exact ⟨(admitsAll_cons_iff.mp hall).1, hnone⟩
        | cons p body =>
            rw [List.cons_append] at heq
            obtain ⟨rfl, hrest⟩ := List.cons.inj heq
            obtain ⟨⟨hlabel, hterm⟩, hbody⟩ := List.forall_mem_cons.mp hbody
            obtain ⟨hadmits, hall⟩ := admitsAll_cons_iff.mp hall
            rw [accepts_body_iff hlabel hterm]
            exact ⟨hadmits, ih.mpr ⟨body, last, rest, hrest, hbody, hlast, hall, hnone⟩⟩

theorem foldl_record (before : List Op) : before.foldl (Ledger.record s) g =
    ⟨g.defined ++ before.flatMap Op.defs, g.used ++ (before.flatMap s.reads).map Prod.fst,
      before.foldl (fun stored o => stored ++ o.stores stored) g.stored⟩ := by
  induction before generalizing g with
  | nil => simp
  | cons o before ih =>
      rw [List.foldl_cons, ih]
      simp [Ledger.record]

theorem segment_place {before after : List Op} {o : Op} (h : seg.ops = before ++ o :: after) :
    o ∈ seg.body ∨ before = seg.body ∧ o = seg.last := by
  rcases List.eq_nil_or_concat after with rfl | ⟨after, x, rfl⟩
  · obtain ⟨hbody, hlast⟩ := List.append_inj' h rfl
    exact .inr ⟨hbody.symm, (List.cons.inj hlast).1.symm⟩
  · rw [Segment.ops, List.concat_eq_append, ← List.cons_append, ← List.append_assoc] at h
    obtain ⟨hbody, -⟩ := List.append_inj' h rfl
    exact .inl (by simp [hbody])

theorem defined_once_iff (hlast : seg.last.isTerminator = true) :
    ((seg.params ++ seg.body.flatMap Op.defs).map Prod.fst).Nodup ↔
      (seg.params.map Prod.fst).Nodup ∧ ∀ before o after, seg.ops = before ++ o :: after →
        (before.foldl (Ledger.record s) (.ofParams seg.params)).Lacks o.defs := by
  have hdefs : (seg.params ++ seg.body.flatMap Op.defs).map Prod.fst =
      seg.params.map Prod.fst ++ seg.ops.flatMap fun o => o.defs.map Prod.fst := by
    simp [Segment.ops, Op.defs_of_isTerminator hlast, List.map_flatMap]
  rw [hdefs, nodup_append_flatMap_iff]
  refine and_congr_right fun _ => forall₄_congr fun before o after _ => ?_
  rw [foldl_record]
  simp only [Ledger.ofParams, ← List.map_flatMap, ← List.map_append]
  exact ⟨fun h => ⟨h.1, h.2⟩, fun h => ⟨h.fresh, h.distinct⟩⟩

theorem offers_iff : (∀ before o after, os = before ++ o :: after →
      (before.foldl (Ledger.record s) (.ofParams params)).Offers (s.reads o)) ↔
    (∀ before o after, os = before ++ o :: after →
      s.reads o ⊆ params ++ before.flatMap Op.defs) ∧
    ((os.flatMap s.reads).map Prod.fst).Nodup := by
  rw [List.map_flatMap, ← List.nil_append (List.flatMap _ os), nodup_append_flatMap_iff]
  simp only [foldl_record, Ledger.ofParams, List.nil_append, ← List.map_flatMap]
  constructor
  · intro h
    refine ⟨fun before o after heq => (h before o after heq).defined, List.nodup_nil, ?_⟩
    intro before o after heq
    exact ⟨(h before o after heq).unused, (h before o after heq).distinct⟩
  · rintro ⟨hdefined, -, hnew⟩ before o after heq
    exact ⟨hdefined before o after heq, (hnew before o after heq).1, (hnew before o after heq).2⟩

/-- The conditions on a segment are those on its operations, one by one. -/
theorem segmentOk_iff : s.SegmentOk seg ↔
    (∀ o ∈ seg.body, o.isLabel = false ∧ o.isTerminator = false) ∧
      seg.last.isTerminator = true ∧ (seg.params.map Prod.fst).Nodup ∧
      s.AdmitsAll (.ofParams seg.params) seg.ops := by
  constructor
  · intro h
    obtain ⟨hparams, hlacks⟩ := (defined_once_iff (s := s) h.last).mp h.defined_once
    have hoffers := offers_iff.mpr ⟨h.defined_before, h.read_once⟩
    refine ⟨h.body, h.last, hparams, ?_⟩
    intro before o after heq
    refine ⟨h.fits o (by simp [heq]), hoffers before o after heq, hlacks before o after heq, ?_⟩
    -- values leave a segment only at its end
    rcases segment_place heq with hmem | ⟨rfl, rfl⟩
    · simp [Op.leaving_of_not_isTerminator (h.body o hmem).2]
    · rw [foldl_record]
      exact h.stored
  · rintro ⟨hbody, hlast, hparams, hall⟩
    obtain ⟨hbefore, hread⟩ :=
      offers_iff.mp fun before o after heq => (hall before o after heq).reads
    have hend : (seg.body.foldl (Ledger.record s) (.ofParams seg.params)).Admits s seg.last :=
      hall seg.body seg.last [] rfl
    refine ⟨hbody, hlast, ?_, hbefore, hread, ?_, ?_⟩
    · exact (defined_once_iff hlast).mpr
        ⟨hparams, fun before o after heq => (hall before o after heq).defs⟩
    · intro o ho
      obtain ⟨before, after, heq⟩ := List.append_of_mem ho
      exact (hall before o after heq).fits
    · rw [foldl_record] at hend
      exact hend.leaving

instance (s : Source) (seg : Segment) : Decidable (s.SegmentOk seg) :=
  decidable_of_iff _ segmentOk_iff.symm

instance (s : Source) (y : Layout) : Decidable (s.LaidOut y) :=
  decidable_of_iff (y.ops = s.ops ∧ y.entry.params = s.params ∧
      (y.labelled.map Prod.fst).Nodup ∧ s.SegmentOk y.entry ∧ ∀ p ∈ y.labelled, s.SegmentOk p.2)
    ⟨fun h => ⟨h.1, h.2.1, h.2.2.1, h.2.2.2.1, h.2.2.2.2⟩,
      fun h => ⟨h.ops, h.params, h.labels, h.entry, h.labelled⟩⟩

theorem accepts_open_iff : (params.map Prod.fst).Nodup ∧ s.Accepts (some (.ofParams params)) os ↔
    ∃ seg rest, seg.params = params ∧ os = seg.ops ++ rest ∧ s.SegmentOk seg ∧
      s.Accepts none rest := by
  rw [accepts_some_iff]
  constructor
  · rintro ⟨hparams, body, last, rest, rfl, hbody, hlast, hall, hrest⟩
    refine ⟨⟨params, body, last⟩, rest, rfl, by simp [Segment.ops], ?_, hrest⟩
    exact segmentOk_iff.mpr ⟨hbody, hlast, hparams, hall⟩
  · rintro ⟨seg, rest, rfl, rfl, hok, hrest⟩
    obtain ⟨hbody, hlast, hparams, hall⟩ := segmentOk_iff.mp hok
    exact ⟨hparams, seg.body, seg.last, rest, by simp [Segment.ops], hbody, hlast, hall, hrest⟩

theorem exists_labelled_of_accepts (os : List Op) (h : s.Accepts none os) :
    ∃ labelled, Layout.labelledOps labelled = os ∧ ∀ p ∈ labelled, s.SegmentOk p.2 := by
  -- what follows the first segment is shorter, but it is no tail by construction
  induction hlen : os.length using Nat.strongRecOn generalizing os with
  | _ n ih =>
      match os, h with
      | [], _ => exact ⟨[], rfl, by simp⟩
      | .label l params :: os, h =>
          obtain ⟨seg, rest, rfl, rfl, hok, hrest⟩ := accepts_open_iff.mp h
          have hshorter : rest.length < n := by
            rw [← hlen, List.length_cons, List.length_append]
            omega
          obtain ⟨labelled, rfl, hall⟩ := ih rest.length hshorter rest hrest rfl
          refine ⟨(l, seg) :: labelled, by simp [Layout.labelledOps], ?_⟩
          exact List.forall_mem_cons.mpr ⟨hok, hall⟩

theorem accepts_labelledOps {labelled : List (Label × Segment)}
    (h : ∀ p ∈ labelled, s.SegmentOk p.2) : s.Accepts none (Layout.labelledOps labelled) := by
  induction labelled with
  | nil => simp [Layout.labelledOps, Accepts]
  | cons p labelled ih =>
      obtain ⟨hok, hall⟩ := List.forall_mem_cons.mp h
      exact accepts_open_iff.mpr ⟨p.2, Layout.labelledOps labelled, rfl, rfl, hok, ih hall⟩

theorem SegmentOk.not_isLabel (hok : s.SegmentOk seg) : ∀ o ∈ seg.ops, o.isLabel = false := by
  intro o ho
  rcases List.mem_append.mp ho with hbody | hlast
  · exact (hok.body o hbody).1
  · rw [List.mem_singleton.mp hlast]
    exact Op.isLabel_of_isTerminator hok.last

theorem placedLabels_labelledOps {labelled : List (Label × Segment)}
    (h : ∀ p ∈ labelled, s.SegmentOk p.2) :
    placedLabels (Layout.labelledOps labelled) = labelled.map Prod.fst := by
  induction labelled with
  | nil => rfl
  | cons p labelled ih =>
      obtain ⟨hok, hall⟩ := List.forall_mem_cons.mp h
      have hops : Layout.labelledOps (p :: labelled) =
          .label p.1 p.2.params :: (p.2.ops ++ Layout.labelledOps labelled) := rfl
      rw [hops, placedLabels_label, placedLabels_append hok.not_isLabel, ih hall, List.map_cons]

theorem LaidOut.placedLabels {y : Layout} (h : s.LaidOut y) :
    placedLabels s.ops = y.labelled.map Prod.fst := by
  rw [← h.ops, Layout.ops, placedLabels_append h.entry.not_isLabel,
    placedLabels_labelledOps h.labelled]

/-- A stream is accepted exactly if it is made of segments that meet their conditions. -/
theorem lowerable_iff : s.Lowerable ↔ ∃ y, s.LaidOut y := by
  constructor
  · rintro ⟨hlabels, hparams, haccepts⟩
    obtain ⟨entry, rest, hentry, hops, hok, hrest⟩ := accepts_open_iff.mp ⟨hparams, haccepts⟩
    obtain ⟨labelled, rfl, hall⟩ := exists_labelled_of_accepts rest hrest
    rw [hops, placedLabels_append hok.not_isLabel, placedLabels_labelledOps hall] at hlabels
    exact ⟨⟨entry, labelled⟩, hops.symm, hentry, hlabels, hok, hall⟩
  · rintro ⟨y, h⟩
    obtain ⟨hparams, haccepts⟩ := accepts_open_iff.mpr ⟨y.entry, Layout.labelledOps y.labelled,
      h.params, h.ops.symm, h.entry, accepts_labelledOps h.labelled⟩
    refine ⟨?_, hparams, haccepts⟩
    rw [h.placedLabels]
    exact h.labels

/-- Control finds a label at its segment. -/
theorem findLabel_labelledOps {labelled : List (Label × Segment)} {l : Label}
    (hlabels : (labelled.map Prod.fst).Nodup) (h : ∀ p ∈ labelled, s.SegmentOk p.2)
    (hmem : (l, seg) ∈ labelled) :
    ∃ more, findLabel l (Layout.labelledOps labelled) = some (seg.params, seg.ops ++ more) := by
  induction labelled with
  | nil => simp at hmem
  | cons p labelled ih =>
      obtain ⟨hok, hall⟩ := List.forall_mem_cons.mp h
      rw [List.map_cons, List.nodup_cons] at hlabels
      have hops : Layout.labelledOps (p :: labelled) =
          .label p.1 p.2.params :: (p.2.ops ++ Layout.labelledOps labelled) := rfl
      rw [hops, findLabel]
      rcases List.mem_cons.mp hmem with rfl | hmem
      · exact ⟨_, if_pos rfl⟩
      · have hne : p.1 ≠ l := fun heq => hlabels.1 (heq ▸ List.mem_map_of_mem hmem)
        rw [if_neg hne, findLabel_append hok.not_isLabel]
        exact ih hlabels.2 hall hmem

theorem LaidOut.findLabel {y : Layout} (h : s.LaidOut y) {l : Label}
    (hmem : (l, seg) ∈ y.labelled) :
    ∃ more, findLabel l s.ops = some (seg.params, seg.ops ++ more) := by
  rw [← h.ops, Layout.ops, findLabel_append h.entry.not_isLabel]
  exact findLabel_labelledOps h.labels h.labelled hmem

end Source

end FieldSSA
