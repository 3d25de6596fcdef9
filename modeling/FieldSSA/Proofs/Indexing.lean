import FieldSSA.Proofs.BinaryRoundTrip
import FieldSSA.Proofs.TypeSafety

namespace FieldSSA

namespace Function

variable {f : Function} {b : Block}

/-- Places that control gets to from the first block. -/
inductive Visits (f : Function) : Nat → Prop
  | entry : 0 < f.blocks.length → f.Visits 0
  | next {place : Nat} {b target : Block} {dest : BlockId} :
      f.Visits place → f.blocks[place]? = some b → dest ∈ b.successors →
        f.block? dest = some target → f.Visits dest.index

/-- Identifiers can stand for blocks: they are places, the first is that of the entry, each
finds its own block and no other, and no run gets to one without a block. -/
structure Indexable (f : Function) : Prop where
  places : f.IdsArePlaces
  entry : ∃ b, f.entry? = some b ∧ b.id = .entry
  lookup : ∀ b ∈ f.blocks, f.block? b.id = some b
  distinct : (f.blocks.map Block.id).Nodup
  visits : ∀ place < f.blocks.length, f.Visits place
  enters : ∀ (limit : Nat) (args : List Scalar) (id : BlockId),
    args.map Scalar.ty = f.signature.params → f.run limit args ≠ .error (.undefinedBlock id)

/-- The identifier of a block names a place whose block has the same identifier. -/
theorem WellFormed.exists_place (hw : f.WellFormed) (hb : b ∈ f.blocks) :
    ∃ c, f.blocks[b.id.index]? = some c ∧ c.id = b.id := by
  obtain ⟨-, hfound⟩ := mem_walk_iff.mp (hw.reached b hb)
  obtain ⟨c, hc⟩ := Option.isSome_iff_exists.mp hfound
  simp only [block?, Option.filter_eq_some_iff, beq_iff_eq] at hc
  exact ⟨c, hc⟩

theorem WellFormed.idsArePlaces_of_nodup (hw : f.WellFormed)
    (hdistinct : (f.blocks.map Block.id).Nodup) : f.IdsArePlaces := by
  intro place b hplace
  obtain ⟨c, hc, hid⟩ := hw.exists_place (List.mem_of_getElem? hplace)
  have hlt : place < (f.blocks.map Block.id).length := by
    rw [List.length_map]
    exact (List.getElem?_eq_some_iff.mp hplace).1
  have hsame : (f.blocks.map Block.id)[place]? = (f.blocks.map Block.id)[b.id.index]? := by
    rw [List.getElem?_map, List.getElem?_map, hplace, hc, Option.map_some, Option.map_some, hid]
  have hindex : place = b.id.index := (List.getElem?_inj hlt hdistinct).mp hsame
  rw [hindex]

theorem IdsArePlaces.visits_of_reachable (hids : f.IdsArePlaces) {id : BlockId}
    (h : f.Reachable id) (hfound : (f.block? id).isSome) : f.Visits id.index := by
  induction h with
  | @entry id hentry =>
      obtain ⟨b, hb, rfl⟩ := Option.map_eq_some_iff.mp hentry
      have hget := getElem?_zero_of_first hb
      rw [hids 0 b hget]
      exact .entry (List.getElem?_eq_some_iff.mp hget).1
  | @next id id' b _ hb hmem ih =>
      obtain ⟨target, htarget⟩ := Option.isSome_iff_exists.mp hfound
      have hplace : f.blocks[id.index]? = some b := by
        simp only [block?, Option.filter_eq_some_iff] at hb
        exact hb.1
      exact .next (ih (by simp [hb])) hplace hmem htarget

theorem WellFormed.run_ne_undefinedBlock (hw : f.WellFormed) (hids : f.IdsArePlaces)
    {args : List Scalar} (hargs : args.map Scalar.ty = f.signature.params) (limit : Nat)
    (id : BlockId) : f.run limit args ≠ .error (.undefinedBlock id) := by
  obtain ⟨s, scope, henter, hs⟩ := exists_enter_entry hw hids hargs
  rw [run_eq_runFrom hargs henter]
  rcases runFrom_typed hw hs limit limit with ⟨o, ho, -⟩ | ⟨culprit, hzero⟩ | hlimit
  · simp [ho]
  · simp [hzero]
  · simp [hlimit]

theorem WellFormed.indexable (hw : f.WellFormed) (hids : f.IdsArePlaces)
    (hdistinct : (f.blocks.map Block.id).Nodup) : f.Indexable where
  places := hids
  entry := by
    obtain ⟨b, hb, -⟩ := hw.entry
    exact ⟨b, hb, hids 0 b (getElem?_zero_of_first hb)⟩
  lookup b hb := hids.block?_self hb
  distinct := hdistinct
  visits := by
    intro place hplace
    have hget := List.getElem?_eq_getElem hplace
    have hreached := mem_walk_iff.mp (hw.reached _ (List.getElem_mem hplace))
    have hvisits := hids.visits_of_reachable hreached.1 hreached.2
    rwa [hids place _ hget] at hvisits
  enters limit args id hargs := hw.run_ne_undefinedBlock hids hargs limit id

/-- The blocks of a verified function, decoded or not, can be indexed by their identifiers
exactly when no two of them share one. -/
theorem indexable_iff_distinct_ids (f : Function) (hverify : f.verify.errors = []) :
    f.Indexable ↔ (f.blocks.map Block.id).Nodup := by
  have hw := f.verify_errors_eq_nil_iff.mp hverify
  constructor
  · intro h
    exact h.distinct
  · intro hdistinct
    exact hw.indexable (hw.idsArePlaces_of_nodup hdistinct) hdistinct

theorem gcdLoop_indexable :
    gcdLoop.verify.errors = [] ∧ (gcdLoop.blocks.map Block.id).Nodup ∧ gcdLoop.Indexable := by
  have hdistinct : (gcdLoop.blocks.map Block.id).Nodup := by decide
  exact ⟨gcdLoop_verify_errors, hdistinct,
    (indexable_iff_distinct_ids gcdLoop gcdLoop_verify_errors).mpr hdistinct⟩

/-- Two blocks whose identifier is the second place. -/
def sharedId : Function where
  signature := ⟨"shared", [], [.u32]⟩
  blocks :=
    [⟨⟨1⟩, [], [.const ⟨0⟩ (.u32 7)], .ret [⟨0⟩]⟩,
      ⟨⟨1⟩, [], [.const ⟨1⟩ (.u32 8)], .ret [⟨1⟩]⟩]
  valueTypes := [.u32, .u32]

theorem sharedId_fits : LawfulBinary.Fits sharedId := by
  have hname : (Binary.utf8 "shared").length < 2 ^ 64 := by decide
  simpa [LawfulBinary.Fits, sharedId] using hname

theorem sharedId_verify_errors : sharedId.verify.errors = [] := by
  cbv

theorem sharedId_visits_eq_zero {place : Nat} (h : sharedId.Visits place) : place = 0 := by
  induction h with
  | entry _ => rfl
  | next _ hplace hmem _ ih =>
      subst ih
      obtain rfl : _ = _ := Option.some.inj hplace
      simp [Block.successors, Terminator.successors] at hmem

/-- Bytes are accepted whose function has no block at its entry's identifier, finds another
block by it, leaves a block unvisited and does not run. -/
theorem sharedId_accepted :
    ofBytes sharedId.toBytes = .ok sharedId ∧ sharedId.verify.errors = [] ∧
      ¬ sharedId.IdsArePlaces ∧ sharedId.entry?.map Block.id = some ⟨1⟩ ∧
      sharedId.block? ⟨1⟩ ≠ sharedId.entry? ∧ ¬ (sharedId.blocks.map Block.id).Nodup ∧
      ¬ sharedId.Visits 1 ∧ sharedId.run 10 [] = .error (.undefinedBlock .entry) := by
  have haccepted : ofBytes sharedId.toBytes = .ok sharedId := by
    have hdecode := decodeBytes_toBytes_append sharedId_fits []
    rw [List.append_nil] at hdecode
    rw [ofBytes_of_decodeBytes hdecode, if_pos sharedId_verify_errors]
  refine ⟨haccepted, sharedId_verify_errors, ?_, rfl, by decide, by decide, ?_, rfl⟩
  · intro hids
    have hentry := hids 0 _ rfl
    simp at hentry
  · intro hvisits
    exact absurd (sharedId_visits_eq_zero hvisits) (by decide)

end Function

end FieldSSA
