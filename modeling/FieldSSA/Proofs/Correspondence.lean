import FieldSSA.Proofs.Code
import FieldSSA.Proofs.TypeSafety

/-!
The code that a stream of operations corresponds to in a function. An assignment says which
value a variable has; operations give the code of their recipes, and the terminator that
ends a segment gives the terminator of its block. Code that corresponds to operations is
typed.
-/

namespace FieldSSA

/-- The values of variables. -/
abbrev Assignment := Var → Option ValueId

/-- The assignment in which the first values are those of the given variables. -/
def Assignment.set (vals : Assignment) (vars : List Var) (values : List ValueId) : Assignment :=
  fun v => ((vars.zip values).lookup v).or (vals v)

namespace Assignment

theorem set_nil (vals : Assignment) : vals.set [] [] = vals := by
  funext v
  simp [set]

theorem set_singleton (vals : Assignment) (v : Var) (x : ValueId) (w : Var) :
    vals.set [v] [x] w = if w = v then some x else vals w := by
  by_cases h : w = v
  · simp [set, h]
  · have hbeq : (w == v) = false := beq_eq_false_iff_ne.mpr h
    simp [set, List.lookup_cons, hbeq, h]

variable {vals : Assignment} {vars : List Var} {values : List ValueId} {v : Var} {x : ValueId}

theorem mem_zip_of_set (h : vals.set vars values v = some x) :
    (v, x) ∈ vars.zip values ∨ vals v = some x := by
  rcases Option.or_eq_some_iff.mp h with hlookup | ⟨-, hold⟩
  · exact .inl (mem_of_lookup_eq_some hlookup)
  · exact .inr hold

theorem set_of_notMem (hv : v ∉ vars) : vals.set vars values v = vals v := by
  have hnone : (vars.zip values).lookup v = none := by
    rw [List.lookup_eq_none_iff]
    intro p hp
    have hmem : p.1 ∈ vars := (List.of_mem_zip hp).1
    simpa using fun heq : v = p.1 => hv (heq ▸ hmem)
  rw [set, hnone, Option.none_or]

theorem set_set_of_notMem (vals : Assignment) (hv : v ∉ vars) :
    (vals.set [v] [x]).set vars values = vals.set (v :: vars) (x :: values) := by
  funext w
  by_cases h : w = v
  · subst h
    rw [set_of_notMem hv, set_singleton, if_pos rfl]
    simp [set]
  · have hbeq : (w == v) = false := beq_eq_false_iff_ne.mpr h
    simp [set, List.lookup_cons, hbeq]

end Assignment

section Relations

variable (src : Source) (labels : List (Label × BlockId)) (f : Function)

/-- A branch of a source and an edge: the edge goes to the block of the label, with the values
of the arguments, which have the types of the label's parameters. -/
structure EdgeCoded (vals : Assignment) (l : Label) (args : List Var) (edge : Edge) : Prop where
  dest : labels.lookup l = some edge.dest
  args : List.Forall₂ (fun v x => vals v = some x) args edge.args
  typed : ∃ types, src.labelTypes? l = some types ∧ f.HasTypes edge.args types

/-- A terminator of a source and a terminator of a block. -/
inductive Ends (vals : Assignment) : Op → Terminator → Prop
  | branch {l : Label} {args : List Var} {edge : Edge} :
      EdgeCoded src labels f vals l args edge → Ends vals (.branch l args) (.br edge)
  | condBranch {cond : Var} {x : ValueId} {l l' : Label} {args args' : List Var}
      {edge edge' : Edge} :
      vals cond = some x → f.HasType x .bool → EdgeCoded src labels f vals l args edge →
      EdgeCoded src labels f vals l' args' edge' →
      Ends vals (.condBranch cond l args l' args') (.condBr x edge edge')
  | ret {args : List Var} {xs : List ValueId} :
      List.Forall₂ (fun v x => vals v = some x) args xs → f.HasTypes xs src.returns →
      Ends vals (.ret args) (.ret xs)

/-- Operations up to a terminator, and the code of a block from there on. New values are
numbered from `next`. -/
inductive Coded : Assignment → (next : Nat) → List Op → List Instruction → Terminator → Prop
  | last {vals : Assignment} {next : Nat} {o : Op} {rest : List Op} {t : Terminator} :
      Ends src labels f vals o t → Coded vals next (o :: rest) [] t
  | step {vals : Assignment} {next : Nat} {o : Op} {rest : List Op} {r : Recipe}
      {args results : List Var} {xs : List ValueId} {is : List Instruction} {t : Terminator} :
      o.asCall? = some (r, args, results) → r.results.length = results.length →
      List.Forall₂ (fun v x => vals v = some x) args xs → f.HasTypes xs r.params →
      f.HasTypes (numbered next (r.code next xs).types.length) (r.code next xs).types →
      Coded (vals.set results (r.code next xs).outputs) (next + (r.code next xs).types.length)
        rest is t →
      Coded vals next (o :: rest) ((r.code next xs).instructions ++ is) t

end Relations

variable {src : Source} {labels : List (Label × BlockId)} {f : Function} {vals : Assignment}

section Grows

variable {b b' : Builder} (hgrow : b.valueTypes <+: b'.valueTypes)

include hgrow

theorem EdgeCoded.grows {l : Label} {args : List Var} {edge : Edge}
    (h : EdgeCoded src labels b.draft vals l args edge) :
    EdgeCoded src labels b'.draft vals l args edge := by
  obtain ⟨types, htypes, hargs⟩ := h.typed
  exact ⟨h.dest, h.args, types, htypes, Builder.hasTypes_of_grows hgrow hargs⟩

theorem Ends.grows {o : Op} {t : Terminator} (h : Ends src labels b.draft vals o t) :
    Ends src labels b'.draft vals o t := by
  cases h with
  | branch hedge => exact .branch (hedge.grows hgrow)
  | condBranch hcond hbool hedge hedge' =>
      exact .condBranch hcond (Builder.hasType_of_grows hgrow hbool) (hedge.grows hgrow)
        (hedge'.grows hgrow)
  | ret hargs htypes => exact .ret hargs (Builder.hasTypes_of_grows hgrow htypes)

end Grows

/-- The labels of a source have blocks with parameters of their types. -/
def LabelsPlaced (src : Source) (labels : List (Label × BlockId)) (f : Function) : Prop :=
  ∀ l id types, labels.lookup l = some id → src.labelTypes? l = some types →
    ∃ target, f.block? id = some target ∧ f.HasTypes target.params types

theorem subset_of_assigned {scope xs : List ValueId} {args : List Var}
    (hscope : ∀ v x, vals v = some x → x ∈ scope)
    (h : List.Forall₂ (fun v x => vals v = some x) args xs) : xs ⊆ scope := by
  induction h with
  | nil => simp
  | cons hx _ ih => exact List.cons_subset.mpr ⟨hscope _ _ hx, ih⟩

theorem EdgeCoded.edgeTyped {l : Label} {args : List Var} {edge : Edge}
    (h : EdgeCoded src labels f vals l args edge) (hplaced : LabelsPlaced src labels f) :
    f.EdgeTyped edge := by
  obtain ⟨types, htypes, hargs⟩ := h.typed
  obtain ⟨target, htarget, hparams⟩ := hplaced l _ types h.dest htypes
  refine ⟨target, htarget, ?_⟩
  rw [List.forall₂_iff_get]
  refine ⟨hargs.length_eq.trans hparams.length_eq.symm, ?_⟩
  intro i hi hi' ty hty
  have htype : i < types.length := hargs.length_eq ▸ hi
  have harg := (List.forall₂_iff_get.mp hargs).2 i hi htype
  have hparam := (List.forall₂_iff_get.mp hparams).2 i hi' htype
  obtain rfl : ty = _ := Option.some.inj (hty.symm.trans hparam)
  exact harg

theorem Ends.typed {o : Op} {t : Terminator} {scope : List ValueId}
    (h : Ends src labels f vals o t) (hplaced : LabelsPlaced src labels f)
    (hreturns : f.signature.returns = src.returns)
    (hscope : ∀ v x, vals v = some x → x ∈ scope) :
    t.operands ⊆ scope ∧ f.TerminatorTyped t := by
  cases h with
  | branch hedge => exact ⟨subset_of_assigned hscope hedge.args, hedge.edgeTyped hplaced⟩
  | condBranch hcond hbool hedge hedge' =>
      refine ⟨?_, hbool, hedge.edgeTyped hplaced, hedge'.edgeTyped hplaced⟩
      exact List.cons_subset.mpr ⟨hscope _ _ hcond, List.append_subset.mpr
        ⟨subset_of_assigned hscope hedge.args, subset_of_assigned hscope hedge'.args⟩⟩
  | ret hargs htypes => exact ⟨subset_of_assigned hscope hargs, by rwa [← hreturns] at htypes⟩

/-- The code of a block is typed, in a scope that has the values of the variables. -/
theorem Coded.typed {next : Nat} {os : List Op} {is : List Instruction} {t : Terminator}
    {scope : List ValueId} (h : Coded src labels f vals next os is t)
    (hplaced : LabelsPlaced src labels f) (hreturns : f.signature.returns = src.returns)
    (hscope : ∀ v x, vals v = some x → x ∈ scope) :
    f.InstructionsTyped scope is ∧ t.operands ⊆ scope ++ is.flatMap Instruction.results ∧
      f.TerminatorTyped t := by
  -- the scope grows by the numbers that each recipe takes
  induction h generalizing scope with
  | last hends =>
      obtain ⟨hoperands, hterm⟩ := hends.typed hplaced hreturns hscope
      exact ⟨trivial, by simpa using hoperands, hterm⟩
  | @step vals next o rest r args results xs is t hcall hlen hargs htypes hnew _ ih =>
      have hcode := (Recipe.code_typed htypes (subset_of_assigned hscope hargs) hnew).1
      have hresults : (r.code next xs).instructions.flatMap Instruction.results =
          numbered next (r.code next xs).types.length := Recipe.code_results htypes.length_eq
      have hnext : ∀ v x, vals.set results (r.code next xs).outputs v = some x →
          x ∈ scope ++ numbered next (r.code next xs).types.length := by
        intro v x hx
        rcases Option.or_eq_some_iff.mp hx with hmem | ⟨-, hold⟩
        · have hout := (List.of_mem_zip (mem_of_lookup_eq_some hmem)).2
          exact List.mem_append_right _
            ((Recipe.code_outputs_sublist htypes.length_eq).subset hout)
        · exact List.mem_append_left _ (hscope v x hold)
      obtain ⟨hrest, hoperands, hterm⟩ := ih hnext
      rw [Function.instructionsTyped_append_iff, List.flatMap_append, hresults,
        ← List.append_assoc]
      exact ⟨⟨hcode, hrest⟩, hoperands, hterm⟩

/-- A block has the code of operations, and its parameters are those of the segment. -/
structure BlockCoded (src : Source) (labels : List (Label × BlockId)) (f : Function)
    (params : List (Var × Ty)) (os : List Op) (b : Block) : Prop where
  typed : f.HasTypes b.params (params.map Prod.snd)
  code : ∃ next, (∀ x ∈ b.params, x.index < next) ∧
    Coded src labels f (Assignment.set (fun _ => none) (params.map Prod.fst) b.params) next os
      b.instructions b.terminator

/-- A function that translates a source: its blocks are the entry and those of the labels, and
each has the code of its segment. -/
structure Translates (src : Source) (labels : List (Label × BlockId)) (f : Function) : Prop where
  signature : f.signature = src.signature
  ids : f.IdsArePlaces
  definitions : (f.blocks.flatMap Block.definitions).Nodup
  typed : ∀ v ∈ f.blocks.flatMap Block.definitions, ∃ ty, f.HasType v ty
  missing : ∀ l, l ∉ placedLabels src.ops → labels.lookup l = none
  injective : ∀ l l' id, labels.lookup l = some id → labels.lookup l' = some id → l = l'
  covered : ∀ b ∈ f.blocks, b.id = .entry ∨ ∃ l, labels.lookup l = some b.id
  entry : ∃ b, f.block? .entry = some b ∧ BlockCoded src labels f src.params src.ops b
  placed : ∀ l params rest, Source.findLabel l src.ops = some (params, rest) → ∃ id b,
    id ≠ .entry ∧ labels.lookup l = some id ∧ f.block? id = some b ∧
    BlockCoded src labels f params rest b

end FieldSSA
