import FieldSSA.Proofs.Drafting
import FieldSSA.Proofs.NameScopes
import FieldSSA.Proofs.StreamPoints

namespace FieldSSA

/-- A call to a draft, other than one that adds a ready-made operation. Callers may give any
variables and labels. -/
inductive DraftCall where
  | param (ty : Ty)
  | var
  | label
  | place (l : Label) (types : List Ty)
  | const (value : Scalar)
  | dup (ty : Ty) (src : Var)
  | storeTemp (ty : Ty) (src : Var)
  | rename (ty : Ty) (src : Var)
  | call (libfunc : String) (args : List Var) (results : Nat)
  | branch (target : Label) (args : List Var)
  | condBranch (cond : Var) (onTrue : Label) (trueArgs : List Var) (onFalse : Label)
      (falseArgs : List Var)
  | ret (args : List Var)

/-- What a call does. What it returns is only of use to the caller. -/
def DraftCall.action : DraftCall → Drafting Unit
  | param ty => do let _ ← Draft.param ty; return
  | var => do let _ ← Draft.var; return
  | label => do let _ ← Draft.label; return
  | place l types => do let _ ← Draft.place l types; return
  | const value => do let _ ← Draft.const value; return
  | dup ty src => do let _ ← Draft.dup ty src; return
  | storeTemp ty src => do let _ ← Draft.storeTemp ty src; return
  | rename ty src => do let _ ← Draft.rename ty src; return
  | call libfunc args results => do let _ ← Draft.call libfunc args results; return
  | branch target args => Draft.branch target args
  | condBranch cond onTrue trueArgs onFalse falseArgs =>
      Draft.condBranch cond onTrue trueArgs onFalse falseArgs
  | ret args => Draft.ret args

namespace Draft

def afterCall (d : Draft) (call : DraftCall) : Draft :=
  (call.action.run d).2

def after (d : Draft) (calls : List DraftCall) : Draft :=
  calls.foldl afterCall d

/-- What a call can do to a draft: give it a parameter, take names, or add an operation that
defines the variables that it takes. -/
inductive Step (d : Draft) : Draft → Prop
  | param (ty : Ty) : d.Step
      { d with params := d.params ++ [(⟨d.nextVar⟩, ty)], nextVar := d.nextVar + 1 }
  | take (vars labels : Nat) : d.Step (d.extended [] vars labels)
  | add {o : Op} (vars : Nat) : o.definedVars = newVars d.nextVar vars →
      d.Step (d.extended [o] vars 0)

/-- The variables of a draft are distinct, and the next one is above them. -/
structure Fresh (d : Draft) : Prop where
  nodup : d.source.definedVars.Nodup
  below : ∀ v ∈ d.source.definedVars, v.index < d.nextVar

variable {d d' : Draft}

theorem var_apply (d : Draft) : var d = (⟨d.nextVar⟩, d.extended [] 1 0) := by
  simp [var, extended, modifyGet, MonadStateOf.modifyGet, StateT.modifyGet, pure]

theorem vars_apply (count : Nat) (d : Draft) :
    vars count d = (newVars d.nextVar count, d.extended [] count 0) := by
  induction count generalizing d with
  | zero => simp [vars, newVars, extended, Drafting.pure_apply]
  | succ count ih =>
      rw [vars, Drafting.bind_apply, var_apply, Drafting.bind_apply, ih, Drafting.pure_apply]
      simp [newVars, List.range'_succ, Nat.add_comm]

theorem push_apply (o : Op) (d : Draft) : push o d = ((), d.extended [o] 0 0) := rfl

theorem place_apply (l : Label) (types : List Ty) (d : Draft) :
    place l types d = (newVars d.nextVar types.length,
      d.extended [.label l ((newVars d.nextVar types.length).zip types)] types.length 0) := by
  rw [place, Drafting.bind_apply, vars_apply, Drafting.bind_apply, push_apply, Drafting.pure_apply,
    extended_extended]
  rfl

theorem call_apply (libfunc : String) (args : List Var) (results : Nat) (d : Draft) :
    call libfunc args results d = (newVars d.nextVar results,
      d.extended [.call libfunc args (newVars d.nextVar results)] results 0) := by
  rw [call, Drafting.bind_apply, vars_apply, Drafting.bind_apply, push_apply, Drafting.pure_apply,
    extended_extended]
  rfl

theorem step_afterCall (d : Draft) (call : DraftCall) : d.Step (d.afterCall call) := by
  cases call with
  | param ty => exact .param ty
  | var =>
      show d.Step (var d).2
      rw [var_apply]
      exact .take 1 0
  | label =>
      show d.Step (label d).2
      rw [label_apply]
      exact .take 0 1
  | place l types =>
      show d.Step (place l types d).2
      rw [place_apply]
      refine .add types.length ?_
      simp [Op.definedVars, newVars, List.map_fst_zip]
  | call libfunc args results =>
      show d.Step (Draft.call libfunc args results d).2
      rw [call_apply]
      exact .add results rfl
  | const value => exact .add 1 rfl
  | dup ty src => exact .add 2 rfl
  | storeTemp ty src => exact .add 1 rfl
  | rename ty src => exact .add 1 rfl
  | branch target args => exact .add 0 rfl
  | condBranch cond onTrue trueArgs onFalse falseArgs => exact .add 0 rfl
  | ret args => exact .add 0 rfl

theorem definedVars_extended (ops : List Op) (vars labels : Nat) :
    (d.extended ops vars labels).source.definedVars =
      d.source.definedVars ++ ops.flatMap Op.definedVars := by
  simp [Source.definedVars, Source.paramVars, source, extended]

/-- New variables that are numbered from the next one on keep a draft fresh, wherever they are
defined. -/
theorem Fresh.of_perm (h : d.Fresh) {new : List Var} {count : Nat}
    (hnew : new.Sublist (newVars d.nextVar count)) (hnext : d'.nextVar = d.nextVar + count)
    (hperm : d'.source.definedVars.Perm (d.source.definedVars ++ new)) : d'.Fresh := by
  have hbounds : ∀ v ∈ new, d.nextVar ≤ v.index ∧ v.index < d.nextVar + count :=
    fun v hv => mem_newVars_iff.mp (hnew.subset hv)
  constructor
  · rw [hperm.nodup_iff, List.nodup_append']
    refine ⟨h.nodup, (nodup_newVars _ _).sublist hnew, fun v hold hv => ?_⟩
    have hlt := h.below v hold
    have hle := (hbounds v hv).1
    omega
  · intro v hv
    rw [hnext]
    rcases List.mem_append.mp (hperm.mem_iff.mp hv) with hold | hv
    · have hlt := h.below v hold
      omega
    · exact (hbounds v hv).2

theorem Fresh.step (h : d.Fresh) (hstep : d.Step d') : d'.Fresh := by
  cases hstep with
  | param ty =>
      refine h.of_perm (List.Sublist.refl (newVars d.nextVar 1)) rfl ?_
      -- a parameter stands before the variables of the operations
      simp only [Source.definedVars, Source.paramVars, source, List.map_append, List.append_assoc]
      exact List.Perm.append_left _ List.perm_append_comm
  | take vars labels =>
      refine h.of_perm (List.nil_sublist (newVars d.nextVar vars)) rfl ?_
      rw [definedVars_extended]
      exact .refl _
  | add vars hvars =>
      refine h.of_perm (List.Sublist.refl (newVars d.nextVar vars)) rfl ?_
      rw [definedVars_extended, List.flatMap_singleton, hvars]

theorem Fresh.after (h : d.Fresh) (calls : List DraftCall) : (d.after calls).Fresh := by
  induction calls generalizing d with
  | nil => exact h
  | cons call rest ih => exact ih (h.step (d.step_afterCall call))

theorem fresh_initial (name : String) (returns : List Ty) : Fresh { name, returns } :=
  ⟨List.nodup_nil, nofun⟩

end Draft

namespace Source

/-- The source that calls to a new draft make. -/
def drafted (name : String) (returns : List Ty) (calls : List DraftCall) : Source :=
  (Draft.after { name, returns } calls).source

/-- Whatever calls made a source, its variables are pairwise distinct, so no emission fails for a
variable that is defined twice, and none for a label if no label is placed twice. -/
theorem drafted_names_distinct (name : String) (returns : List Ty) (calls : List DraftCall) :
    (drafted name returns calls).definedVars.Nodup ∧
    ∀ (registry : Registry) (c : Config) (e : EmitError), c.validate = .ok () →
      (drafted name returns calls).emit registry c = .error e →
        (∀ v, e.defect? ≠ some (.redefinedVar v)) ∧
        ((placedLabels (drafted name returns calls).ops).Nodup →
          ∀ l, e.defect? ≠ some (.duplicateLabel l)) := by
  have hvars : (drafted name returns calls).definedVars.Nodup :=
    ((Draft.fresh_initial name returns).after calls).nodup
  refine ⟨hvars, fun registry c e hc herror => ⟨fun v hv => ?_, fun hlabels l hl => ?_⟩⟩
  · have hrepeat : e.isRepeat = true := by simp [EmitError.isRepeat, hv, Defect.isRepeat]
    obtain ⟨-, l, hl⟩ := repeat_of_emit_eq_error hc hvars herror hrepeat
    simp [hv] at hl
  · have hrepeat : e.isRepeat = true := by simp [EmitError.isRepeat, hl, Defect.isRepeat]
    exact (repeat_of_emit_eq_error hc hvars herror hrepeat).1 hlabels

/-- Calls that read a parameter twice, and give the function another one after that. -/
def spentTwice : Source :=
  drafted "spent" [.u32]
    [.param .u32, .storeTemp .u32 ⟨0⟩, .storeTemp .u32 ⟨0⟩, .param .bool, .ret [⟨1⟩]]

/-- The source is refused, but not for its names. -/
theorem spentTwice_names_distinct :
    spentTwice.emit .default {} = .error (.malformed "spent" 1 (.consumedValue ⟨0⟩ 0)) ∧
    spentTwice.definedVars.Nodup ∧
    ∀ (registry : Registry) (e : EmitError), spentTwice.emit registry {} = .error e →
      (∀ v, e.defect? ≠ some (.redefinedVar v)) ∧ ∀ l, e.defect? ≠ some (.duplicateLabel l) := by
  obtain ⟨hvars, hnames⟩ := drafted_names_distinct "spent" [.u32]
    [.param .u32, .storeTemp .u32 ⟨0⟩, .storeTemp .u32 ⟨0⟩, .param .bool, .ret [⟨1⟩]]
  refine ⟨by cbv, hvars, fun registry e herror => ?_⟩
  obtain ⟨hvar, hlabel⟩ := hnames registry {} e rfl herror
  exact ⟨hvar, hlabel (by decide)⟩

end Source

end FieldSSA
