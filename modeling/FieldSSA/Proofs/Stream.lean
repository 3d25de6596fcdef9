import Mathlib.Data.List.Nodup
import FieldSSA.Libfunc.Registry
import FieldSSA.Source.Machine

/-!
Well-formed streams of operations. A stream is cut into segments, one for the entry and one
for each label, and each segment ends in its only terminator. Inside a segment variables
are defined once, read at most once and only after their definition, and only stored
variables leave it. Segments are also accepted operation by operation, with a ledger of what
was defined, used and stored so far; the two views are equivalent.
-/

namespace FieldSSA

namespace Op

/-- The variables that an operation defines in its segment, with their types. -/
def defs : Op → List (Var × Ty)
  | const dest value => [(dest, value.ty)]
  | dup ty _ first second => [(first, ty), (second, ty)]
  | storeTemp ty _ dest | rename ty _ dest => [(dest, ty)]
  | call libfunc _ results =>
      results.zip (((Registry.default.get? libfunc).map Libfunc.results).getD [])
  | _ => []

/-- The variables whose values leave the segment. -/
def leaving : Op → List Var
  | branch _ args => args
  | condBranch _ _ trueArgs _ falseArgs => trueArgs ++ falseArgs
  | ret args => args
  | _ => []

/-- The labels that an operation may go to. -/
def targets : Op → List Label
  | branch target _ => [target]
  | condBranch _ onTrue _ onFalse _ => [onTrue, onFalse]
  | _ => []

/-- The label that an operation places. -/
def placed? : Op → Option Label
  | label l _ => some l
  | _ => none

/-- The stored variables that an operation adds: temporaries, and copies and renamings of
stored variables. -/
def stores (stored : List Var) : Op → List Var
  | storeTemp _ _ dest => [dest]
  | dup _ src first second => if src ∈ stored then [first, second] else []
  | rename _ src dest => if src ∈ stored then [dest] else []
  | _ => []

theorem exists_eq_label {o : Op} (h : o.isLabel = true) : ∃ l params, o = .label l params := by
  cases o with
  | label l params => exact ⟨l, params, rfl⟩
  | _ => simp [isLabel] at h

end Op

/-- The labels that operations place, in order. -/
def placedLabels (os : List Op) : List Label :=
  os.filterMap Op.placed?

theorem placedLabels_label (l : Label) (params : List (Var × Ty)) (rest : List Op) :
    placedLabels (.label l params :: rest) = l :: placedLabels rest := rfl

theorem placedLabels_cons {o : Op} (h : o.isLabel = false) (rest : List Op) :
    placedLabels (o :: rest) = placedLabels rest := by
  cases o with
  | label l params => simp [Op.isLabel] at h
  | _ => rfl

theorem findLabel_cons {o : Op} (h : o.isLabel = false) (l : Label) (rest : List Op) :
    Source.findLabel l (o :: rest) = Source.findLabel l rest := by
  cases o with
  | label l params => simp [Op.isLabel] at h
  | _ => rfl

theorem findLabel_eq_none_iff {l : Label} {os : List Op} :
    Source.findLabel l os = none ↔ l ∉ placedLabels os := by
  induction os with
  | nil => simp [Source.findLabel, placedLabels]
  | cons o rest ih =>
      cases o with
      | label m params =>
          rw [placedLabels_label, Source.findLabel]
          by_cases h : m = l
          · simp [h]
          · simp [h, ih, Ne.symm h]
      | _ => rwa [placedLabels_cons rfl, findLabel_cons rfl]

theorem mem_placedLabels_of_findLabel {l : Label} {os : List Op}
    {place : List (Var × Ty) × List Op} (h : Source.findLabel l os = some place) :
    l ∈ placedLabels os := by
  rw [← not_not (a := l ∈ placedLabels os), ← findLabel_eq_none_iff, h]
  simp

namespace Source

/-- The types of the parameters of a label, if it is placed. -/
def labelTypes? (s : Source) (l : Label) : Option (List Ty) :=
  (findLabel l s.ops).map fun place => place.1.map Prod.snd

/-- The variables that an operation reads, with the types that it requires. -/
def reads (s : Source) : Op → List (Var × Ty)
  | .label _ _ | .const _ _ => []
  | .dup ty src _ _ | .storeTemp ty src _ | .rename ty src _ => [(src, ty)]
  | .call libfunc args _ =>
      args.zip (((Registry.default.get? libfunc).map Libfunc.params).getD [])
  | .branch target args => args.zip ((s.labelTypes? target).getD [])
  | .condBranch cond onTrue trueArgs onFalse falseArgs =>
      (cond, .bool) :: (trueArgs.zip ((s.labelTypes? onTrue).getD []) ++
        falseArgs.zip ((s.labelTypes? onFalse).getD []))
  | .ret args => args.zip s.returns

/-- A branch goes to a placed label, with as many arguments as it has parameters. -/
def EdgeFits (s : Source) (target : Label) (args : List Var) : Prop :=
  ∃ types, s.labelTypes? target = some types ∧ types.length = args.length

/-- What an operation names exists, and takes and gives as many variables. -/
def Fits (s : Source) : Op → Prop
  | .call libfunc args results => ∃ l, Registry.default.get? libfunc = some l ∧
      l.params.length = args.length ∧ l.results.length = results.length
  | .branch target args => s.EdgeFits target args
  | .condBranch _ onTrue trueArgs onFalse falseArgs =>
      s.EdgeFits onTrue trueArgs ∧ s.EdgeFits onFalse falseArgs
  | .ret args => s.returns.length = args.length
  | _ => True

instance (s : Source) (target : Label) (args : List Var) : Decidable (s.EdgeFits target args) :=
  decidable_of_iff (∃ types ∈ s.labelTypes? target, types.length = args.length) Iff.rfl

instance (s : Source) : DecidablePred s.Fits
  | .call libfunc args results =>
      decidable_of_iff (∃ l ∈ Registry.default.get? libfunc,
        l.params.length = args.length ∧ l.results.length = results.length) Iff.rfl
  | .branch target args => inferInstanceAs (Decidable (s.EdgeFits target args))
  | .condBranch _ onTrue trueArgs onFalse falseArgs =>
      inferInstanceAs (Decidable (s.EdgeFits onTrue trueArgs ∧ s.EdgeFits onFalse falseArgs))
  | .ret args => inferInstanceAs (Decidable (s.returns.length = args.length))
  | .label _ _ | .const _ _ | .dup _ _ _ _ | .storeTemp _ _ _ | .rename _ _ _ => isTrue trivial

end Source

/-- What a segment has defined, used and stored so far. -/
structure Ledger where
  defined : List (Var × Ty)
  used : List Var
  stored : List Var

namespace Ledger

def ofParams (params : List (Var × Ty)) : Ledger :=
  ⟨params, [], params.map Prod.fst⟩

/-- Variables are read. -/
def use (g : Ledger) (vars : List Var) : Ledger :=
  { g with used := g.used ++ vars }

/-- Variables are defined, stored or not. -/
def define (g : Ledger) (defs : List (Var × Ty)) (stored : Bool) : Ledger :=
  ⟨g.defined ++ defs, g.used, g.stored ++ if stored then defs.map Prod.fst else []⟩

/-- An operation is done. -/
def record (s : Source) (g : Ledger) (o : Op) : Ledger :=
  ⟨g.defined ++ o.defs, g.used ++ (s.reads o).map Prod.fst, g.stored ++ o.stores g.stored⟩

/-- Variables can be read: they are defined with the types, were not used, and none is read
twice. -/
structure Offers (g : Ledger) (reads : List (Var × Ty)) : Prop where
  defined : reads ⊆ g.defined
  unused : g.used.Disjoint (reads.map Prod.fst)
  distinct : (reads.map Prod.fst).Nodup

/-- Variables can be defined: they are new, and none is defined twice. -/
structure Lacks (g : Ledger) (defs : List (Var × Ty)) : Prop where
  fresh : (g.defined.map Prod.fst).Disjoint (defs.map Prod.fst)
  distinct : (defs.map Prod.fst).Nodup

instance (g : Ledger) (reads : List (Var × Ty)) : Decidable (g.Offers reads) :=
  decidable_of_iff (reads ⊆ g.defined ∧ (∀ v ∈ g.used, v ∉ reads.map Prod.fst) ∧
      (reads.map Prod.fst).Nodup)
    ⟨fun h => ⟨h.1, fun v hv => h.2.1 v hv, h.2.2⟩,
      fun h => ⟨h.defined, fun _ hv => h.unused hv, h.distinct⟩⟩

instance (g : Ledger) (defs : List (Var × Ty)) : Decidable (g.Lacks defs) :=
  decidable_of_iff ((∀ v ∈ g.defined.map Prod.fst, v ∉ defs.map Prod.fst) ∧
      (defs.map Prod.fst).Nodup)
    ⟨fun h => ⟨fun v hv => h.1 v hv, h.2⟩, fun h => ⟨fun _ hv => h.fresh hv, h.distinct⟩⟩

theorem use_use (g : Ledger) (vars vars' : List Var) :
    (g.use vars).use vars' = g.use (vars ++ vars') := by
  simp [use]

theorem offers_nil (g : Ledger) : g.Offers [] :=
  ⟨by simp, by simp, by simp⟩

/-- Reading in two steps: the second sees what the first has used. -/
theorem offers_append_iff {g : Ledger} {xs ys : List (Var × Ty)} :
    g.Offers (xs ++ ys) ↔ g.Offers xs ∧ (g.use (xs.map Prod.fst)).Offers ys := by
  constructor
  · rintro ⟨hdefined, hunused, hdistinct⟩
    rw [List.append_subset] at hdefined
    rw [List.map_append, List.disjoint_append_right] at hunused
    rw [List.map_append, List.nodup_append'] at hdistinct
    exact ⟨⟨hdefined.1, hunused.1, hdistinct.1⟩,
      ⟨hdefined.2, List.disjoint_append_left.mpr ⟨hunused.2, hdistinct.2.2⟩, hdistinct.2.1⟩⟩
  · rintro ⟨⟨hxs, hxsUnused, hxsDistinct⟩, ⟨hys, hysUnused, hysDistinct⟩⟩
    obtain ⟨hused, hdisjoint⟩ := List.disjoint_append_left.mp hysUnused
    refine ⟨List.append_subset.mpr ⟨hxs, hys⟩, ?_, ?_⟩
    · rw [List.map_append, List.disjoint_append_right]
      exact ⟨hxsUnused, hused⟩
    · rw [List.map_append, List.nodup_append']
      exact ⟨hxsDistinct, hysDistinct, hdisjoint⟩

theorem offers_cons_iff {g : Ledger} (p : Var × Ty) (ps : List (Var × Ty)) :
    g.Offers (p :: ps) ↔ g.Offers [p] ∧ (g.use [p.1]).Offers ps := by
  rw [← List.singleton_append, offers_append_iff]
  rfl

theorem offers_singleton_iff {g : Ledger} {v : Var} {ty : Ty} :
    g.Offers [(v, ty)] ↔ (v, ty) ∈ g.defined ∧ v ∉ g.used := by
  constructor
  · rintro ⟨hdefined, hunused, -⟩
    exact ⟨by simpa using hdefined, by simpa using hunused⟩
  · rintro ⟨hdefined, hunused⟩
    exact ⟨by simpa using hdefined, by simpa using hunused, by simp⟩

theorem define_singleton_define (g : Ledger) (p : Var × Ty) (defs : List (Var × Ty))
    (stored : Bool) : (g.define [p] stored).define defs stored = g.define (p :: defs) stored := by
  cases stored <;> simp [define]

theorem lacks_nil (g : Ledger) : g.Lacks [] :=
  ⟨by simp, by simp⟩

theorem lacks_use_iff {g : Ledger} {vars : List Var} {defs : List (Var × Ty)} :
    (g.use vars).Lacks defs ↔ g.Lacks defs :=
  ⟨fun h => ⟨h.fresh, h.distinct⟩, fun h => ⟨h.fresh, h.distinct⟩⟩

/-- Defining in two steps: the second sees what the first has defined. -/
theorem lacks_cons_iff {g : Ledger} {v : Var} {ty : Ty} {defs : List (Var × Ty)} (stored : Bool) :
    g.Lacks ((v, ty) :: defs) ↔
      v ∉ g.defined.map Prod.fst ∧ (g.define [(v, ty)] stored).Lacks defs := by
  constructor
  · rintro ⟨hfresh, hdistinct⟩
    rw [List.map_cons, List.disjoint_cons_right] at hfresh
    rw [List.map_cons, List.nodup_cons] at hdistinct
    refine ⟨hfresh.1, ?_, hdistinct.2⟩
    rw [define, List.map_append, List.disjoint_append_left]
    exact ⟨hfresh.2, by simpa using hdistinct.1⟩
  · rintro ⟨hv, hfresh, hdistinct⟩
    rw [define, List.map_append, List.disjoint_append_left] at hfresh
    refine ⟨?_, ?_⟩
    · rw [List.map_cons, List.disjoint_cons_right]
      exact ⟨hv, hfresh.1⟩
    · rw [List.map_cons, List.nodup_cons]
      exact ⟨by simpa using hfresh.2, hdistinct⟩

/-- The next operation of a segment is in order. -/
structure Admits (s : Source) (g : Ledger) (o : Op) : Prop where
  fits : s.Fits o
  reads : g.Offers (s.reads o)
  defs : g.Lacks o.defs
  leaving : o.leaving ⊆ g.stored

instance (s : Source) (g : Ledger) (o : Op) : Decidable (g.Admits s o) :=
  decidable_of_iff (s.Fits o ∧ g.Offers (s.reads o) ∧ g.Lacks o.defs ∧ o.leaving ⊆ g.stored)
    ⟨fun h => ⟨h.1, h.2.1, h.2.2.1, h.2.2.2⟩, fun h => ⟨h.fits, h.reads, h.defs, h.leaving⟩⟩

end Ledger

/-- Operations are in order, one by one. The ledger is that of the open segment. -/
def Source.Accepts (s : Source) : Option Ledger → List Op → Prop
  | none, [] => True
  | some _, [] => False
  | none, .label _ params :: rest =>
      (params.map Prod.fst).Nodup ∧ s.Accepts (some (.ofParams params)) rest
  | none, _ :: _ => False
  | some g, o :: rest =>
      o.isLabel = false ∧ g.Admits s o ∧
        s.Accepts (if o.isTerminator then none else some (g.record s o)) rest

/-- The conditions on a stream, without the condition that control can get to its labels. -/
structure Source.Lowerable (s : Source) : Prop where
  labels : (placedLabels s.ops).Nodup
  params : s.paramVars.Nodup
  accepts : s.Accepts (some (.ofParams s.params)) s.ops

section Accepts

variable {s : Source} {g : Ledger} {o : Op} {rest : List Op}

theorem accepts_terminator_iff (hlabel : o.isLabel = false) (hterm : o.isTerminator = true) :
    s.Accepts (some g) (o :: rest) ↔ g.Admits s o ∧ s.Accepts none rest := by
  simp [Source.Accepts, hlabel, hterm]

theorem accepts_body_iff (hlabel : o.isLabel = false) (hterm : o.isTerminator = false) :
    s.Accepts (some g) (o :: rest) ↔ g.Admits s o ∧ s.Accepts (some (g.record s o)) rest := by
  simp [Source.Accepts, hlabel, hterm]

theorem not_accepts_label {l : Label} {params : List (Var × Ty)} :
    ¬ s.Accepts (some g) (.label l params :: rest) := by
  simp [Source.Accepts, Op.isLabel]

end Accepts

/-- Operations that follow each other up to a terminator. -/
structure Segment where
  params : List (Var × Ty)
  body : List Op
  last : Op

namespace Segment

def ops (seg : Segment) : List Op :=
  seg.body ++ [seg.last]

/-- The stored variables at the end of a segment. -/
def stored (seg : Segment) : List Var :=
  seg.body.foldl (fun stored o => stored ++ o.stores stored) (seg.params.map Prod.fst)

end Segment

/-- The conditions on one segment of a source. -/
structure Source.SegmentOk (s : Source) (seg : Segment) : Prop where
  body : ∀ o ∈ seg.body, o.isLabel = false ∧ o.isTerminator = false
  last : seg.last.isTerminator = true
  defined_once : ((seg.params ++ seg.body.flatMap Op.defs).map Prod.fst).Nodup
  defined_before : ∀ before o after, seg.ops = before ++ o :: after →
    s.reads o ⊆ seg.params ++ before.flatMap Op.defs
  read_once : ((seg.ops.flatMap s.reads).map Prod.fst).Nodup
  fits : ∀ o ∈ seg.ops, s.Fits o
  stored : seg.last.leaving ⊆ seg.stored

/-- A stream as its segments. -/
structure Layout where
  entry : Segment
  labelled : List (Label × Segment)

namespace Layout

def labelledOps (labelled : List (Label × Segment)) : List Op :=
  labelled.flatMap fun (l, seg) => .label l seg.params :: seg.ops

def ops (y : Layout) : List Op :=
  y.entry.ops ++ labelledOps y.labelled

/-- Labels that control can get to from the entry. -/
inductive Reached (y : Layout) : Label → Prop
  | entry {l : Label} : l ∈ y.entry.last.targets → y.Reached l
  | next {l l' : Label} {seg : Segment} :
      y.Reached l → (l, seg) ∈ y.labelled → l' ∈ seg.last.targets → y.Reached l'

end Layout

/-- The stream of a source is a list of segments that are in order, with distinct labels. -/
structure Source.LaidOut (s : Source) (y : Layout) : Prop where
  ops : y.ops = s.ops
  params : y.entry.params = s.params
  labels : (y.labelled.map Prod.fst).Nodup
  entry : s.SegmentOk y.entry
  labelled : ∀ p ∈ y.labelled, s.SegmentOk p.2

/-- A source is well-formed if it is laid out in segments and control can get to all labels. -/
def Source.WellFormed (s : Source) : Prop :=
  ∃ y, s.LaidOut y ∧ ∀ l ∈ y.labelled.map Prod.fst, y.Reached l

end FieldSSA
