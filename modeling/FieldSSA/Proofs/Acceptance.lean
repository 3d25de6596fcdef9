import FieldSSA.Proofs.Emission
import FieldSSA.Proofs.Reachability
import FieldSSA.Proofs.Segments

namespace FieldSSA

section Successors

variable {src : Source} {labels : List (Label × BlockId)} {f : Function} {vals : Assignment}
  {o : Op} {t : Terminator}

theorem Ends.successors (h : Ends src labels f vals o t) :
    List.Forall₂ (fun l id => labels.lookup l = some id) o.targets
      (t.successors.map Edge.dest) := by
  cases h with
  | branch hedge => exact .cons hedge.dest .nil
  | condBranch _ _ hedge hedge' => exact .cons hedge.dest (.cons hedge'.dest .nil)
  | ret => exact .nil

theorem Ends.isTerminator (h : Ends src labels f vals o t) : o.isTerminator = true := by
  cases h <;> rfl

theorem Coded.exists_ends {next : Nat} {os : List Op} {is : List Instruction}
    (h : Coded src labels f vals next os is t) :
    ∃ vals' last, os.find? Op.isTerminator = some last ∧ Ends src labels f vals' last t := by
  induction h with
  | last hends => exact ⟨_, _, by simp [hends.isTerminator], hends⟩
  | step hcall _ _ _ _ _ ih =>
      obtain ⟨vals', last, hfind, hends⟩ := ih
      exact ⟨vals', last, by simp [Op.isTerminator_of_asCall? hcall, hfind], hends⟩

theorem Source.SegmentOk.find?_isTerminator {seg : Segment} (h : src.SegmentOk seg)
    (more : List Op) : (seg.ops ++ more).find? Op.isTerminator = some seg.last := by
  have hbody : seg.body.find? Op.isTerminator = none := by
    rw [List.find?_eq_none]
    intro o ho
    simp [(h.body o ho).2]
  simp [Segment.ops, hbody, h.last]

theorem BlockCoded.successors {params : List (Var × Ty)} {seg : Segment} {more : List Op}
    {b : Block} (h : BlockCoded src labels f params (seg.ops ++ more) b)
    (hok : src.SegmentOk seg) :
    List.Forall₂ (fun l id => labels.lookup l = some id) seg.last.targets b.successors := by
  obtain ⟨next, -, hcoded⟩ := h.code
  obtain ⟨vals', last, hfind, hends⟩ := hcoded.exists_ends
  rw [hok.find?_isTerminator more] at hfind
  obtain rfl : seg.last = last := Option.some.inj hfind
  exact hends.successors

end Successors

section Reached

variable {s : Source} {labels : List (Label × BlockId)} {f : Function} {y : Layout}
  {l : Label} {id : BlockId} {seg : Segment}

variable (h : Translates s labels f) (hy : s.LaidOut y)

include h hy

theorem Translates.entry_successors : ∃ b, f.entry? = some b ∧ f.block? .entry = some b ∧
    List.Forall₂ (fun l id => labels.lookup l = some id) y.entry.last.targets b.successors := by
  obtain ⟨b, hentry, hb, hcoded⟩ := h.exists_entry
  rw [← hy.ops] at hcoded
  exact ⟨b, hentry, hb, hcoded.successors hy.entry⟩

theorem Translates.label_successors (hmem : (l, seg) ∈ y.labelled) :
    ∃ id b, id ≠ .entry ∧ labels.lookup l = some id ∧ f.block? id = some b ∧
      List.Forall₂ (fun l id => labels.lookup l = some id) seg.last.targets b.successors := by
  obtain ⟨more, hfound⟩ := hy.findLabel hmem
  obtain ⟨id, b, hne, hlookup, hb, hcoded⟩ := h.placed l _ _ hfound
  exact ⟨id, b, hne, hlookup, hb, hcoded.successors (hy.labelled _ hmem)⟩

theorem Translates.exists_segment (hlookup : labels.lookup l = some id) :
    ∃ seg, (l, seg) ∈ y.labelled := by
  have hplaced : l ∈ placedLabels s.ops := by
    by_contra hnot
    simp [h.missing l hnot] at hlookup
  rw [hy.placedLabels] at hplaced
  obtain ⟨⟨_, seg⟩, hseg, rfl⟩ := List.mem_map.mp hplaced
  exact ⟨seg, hseg⟩

theorem Translates.reached_of_reachable (hid : f.Reachable id) :
    id = .entry ∨ ∃ l, labels.lookup l = some id ∧ y.Reached l := by
  induction hid with
  | entry hb =>
      obtain ⟨b, hentry, hblock, -⟩ := h.entry_successors hy
      obtain rfl : b.id = _ := by simpa [hentry] using hb
      exact .inl (Function.mem_blocks_of_block? hblock).2
  | @next id id' b _ hb hmem ih =>
      refine .inr ?_
      rcases ih with rfl | ⟨l, hlookup, hreached⟩
      · obtain ⟨b', -, hb', hsuccessors⟩ := h.entry_successors hy
        obtain rfl : b = b' := Option.some.inj (hb.symm.trans hb')
        obtain ⟨l', hl', hlookup'⟩ := exists_mem_of_forall₂ hsuccessors.flip hmem
        exact ⟨l', hlookup', .entry hl'⟩
      · obtain ⟨seg, hseg⟩ := h.exists_segment hy hlookup
        obtain ⟨id'', b', -, hlookup'', hb', hsuccessors⟩ := h.label_successors hy hseg
        obtain rfl : id = id'' := Option.some.inj (hlookup.symm.trans hlookup'')
        obtain rfl : b = b' := Option.some.inj (hb.symm.trans hb')
        obtain ⟨l', hl', hlookup'⟩ := exists_mem_of_forall₂ hsuccessors.flip hmem
        exact ⟨l', hlookup', hreached.next hseg hl'⟩

theorem Translates.reachable_of_reached (hl : y.Reached l) :
    ∃ id, labels.lookup l = some id ∧ f.Reachable id := by
  induction hl with
  | entry hl =>
      obtain ⟨b, hentry, hb, hsuccessors⟩ := h.entry_successors hy
      obtain ⟨id, hid, hlookup⟩ := exists_mem_of_forall₂ hsuccessors hl
      have hstart : f.Reachable .entry :=
        .entry (by simp [hentry, (Function.mem_blocks_of_block? hb).2])
      exact ⟨id, hlookup, hstart.next hb hid⟩
  | next _ hseg hl ih =>
      obtain ⟨id, hlookup, hreachable⟩ := ih
      obtain ⟨id', b, -, hlookup', hb, hsuccessors⟩ := h.label_successors hy hseg
      obtain rfl : id = id' := Option.some.inj (hlookup.symm.trans hlookup')
      obtain ⟨id'', hid'', hlookup''⟩ := exists_mem_of_forall₂ hsuccessors hl
      exact ⟨id'', hlookup'', hreachable.next hb hid''⟩

/-- Every block of a translation is reachable exactly if every label is. -/
theorem Translates.unreachable_eq_nil_iff :
    f.unreachable = [] ↔ ∀ l ∈ y.labelled.map Prod.fst, y.Reached l := by
  rw [Function.unreachable_eq_nil_iff]
  constructor
  · intro hblocks l hl
    obtain ⟨⟨_, seg⟩, hseg, rfl⟩ := List.mem_map.mp hl
    obtain ⟨id, b, hne, hlookup, hb, -⟩ := h.label_successors hy hseg
    obtain ⟨hmem, rfl⟩ := Function.mem_blocks_of_block? hb
    obtain ⟨hreachable, -⟩ := Function.mem_walk_iff.mp (hblocks b hmem)
    rcases h.reached_of_reachable hy hreachable with hentry | ⟨l', hlookup', hreached⟩
    · exact absurd hentry hne
    -- the block is that of no other label
    · exact h.injective _ _ _ hlookup' hlookup ▸ hreached
  · intro hlabels b hb
    have hblock : f.block? b.id = some b := h.ids.block?_self hb
    refine Function.mem_walk_iff.mpr ⟨?_, by simp [hblock]⟩
    rcases h.covered b hb with hentry | ⟨l, hlookup⟩
    · obtain ⟨b', hb', hname, -⟩ := h.entry_successors hy
      rw [hentry]
      exact .entry (by simp [hb', (Function.mem_blocks_of_block? hname).2])
    · obtain ⟨seg, hseg⟩ := h.exists_segment hy hlookup
      obtain ⟨id, hlookup', hreachable⟩ :=
        h.reachable_of_reached hy (hlabels l (List.mem_map_of_mem hseg))
      obtain rfl : b.id = id := Option.some.inj (hlookup.symm.trans hlookup')
      exact hreachable

end Reached

namespace Source

variable {s : Source} {c : Config} {f : Function}

theorem wellFormed_of_emit (hc : c.validate = .ok ()) (h : s.emit .default c = .ok f) :
    s.WellFormed := by
  obtain ⟨hlowerable, hreached, labels, htranslates⟩ := exists_translates_of_emit hc h
  obtain ⟨y, hy⟩ := lowerable_iff.mp hlowerable
  exact ⟨y, hy, (htranslates.unreachable_eq_nil_iff hy).mp hreached⟩

theorem exists_emit_of_wellFormed (hc : c.validate = .ok ()) (h : s.WellFormed) :
    ∃ f, s.emit .default c = .ok f := by
  obtain ⟨y, hy, hlabels⟩ := h
  rcases emit_cases s with ⟨hnot, -⟩ | ⟨-, f, labels, htranslates, ⟨-, hemit⟩ | ⟨hnot, -⟩⟩
  · exact absurd (lowerable_iff.mpr ⟨y, hy⟩) hnot
  · exact ⟨f, hemit c hc⟩
  · exact absurd ((htranslates.unreachable_eq_nil_iff hy).mpr hlabels) hnot

/-- The sources that are emitted are the well-formed ones. -/
theorem emit_ok_iff_wellFormed (s : Source) (c : Config) (hc : c.validate = .ok ()) :
    (∃ f, s.emit .default c = .ok f) ↔ s.WellFormed := by
  constructor
  · rintro ⟨f, h⟩
    exact wellFormed_of_emit hc h
  · intro h
    exact exists_emit_of_wellFormed hc h

/-- The segments of Euclid's algorithm: the entry, the loop and the end. -/
def euclidLayout : Layout where
  entry := ⟨euclid.params, [], .branch ⟨0⟩ [⟨0⟩, ⟨1⟩]⟩
  labelled :=
    [(⟨0⟩, ⟨[(⟨2⟩, .u32), (⟨3⟩, .u32)], (euclid.ops.drop 2).take 6,
        .condBranch ⟨10⟩ ⟨1⟩ [⟨12⟩] ⟨0⟩ [⟨13⟩, ⟨11⟩]⟩),
      (⟨1⟩, ⟨[(⟨14⟩, .u32)], [], .ret [⟨14⟩]⟩)]

theorem euclid_wellFormed : euclid.WellFormed := by
  have hloop : euclidLayout.Reached ⟨0⟩ := .entry (by decide)
  have hdone : euclidLayout.Reached ⟨1⟩ := hloop.next List.mem_cons_self (by decide)
  refine ⟨euclidLayout, by decide, ?_⟩
  intro l hl
  rcases List.mem_cons.mp hl with rfl | hl
  · exact hloop
  · rw [List.mem_singleton.mp hl]
    exact hdone

theorem euclid_emit_ok :
    ({} : Config).validate = .ok () ∧ euclid.WellFormed ∧ ∃ f, euclid.emit .default {} = .ok f :=
  ⟨rfl, euclid_wellFormed, (emit_ok_iff_wellFormed euclid {} rfl).mpr euclid_wellFormed⟩

end Source

end FieldSSA
