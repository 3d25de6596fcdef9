import FieldSSA.Source.ZeroTest

namespace FieldSSA

/-- A draft with more operations, and with more variables and labels taken. -/
def Draft.extended (d : Draft) (ops : List Op) (vars labels : Nat) : Draft :=
  { d with
    ops := d.ops ++ ops
    nextVar := d.nextVar + vars
    nextLabel := d.nextLabel + labels }

section Extended

variable (d : Draft) (ops ops' : List Op) (vars vars' labels labels' : Nat)

@[simp]
theorem Draft.nextVar_extended : (d.extended ops vars labels).nextVar = d.nextVar + vars := rfl

@[simp]
theorem Draft.nextLabel_extended :
    (d.extended ops vars labels).nextLabel = d.nextLabel + labels := rfl

@[simp]
theorem Draft.extended_extended :
    (d.extended ops vars labels).extended ops' vars' labels' =
      d.extended (ops ++ ops') (vars + vars') (labels + labels') := by
  simp [extended, Nat.add_assoc]

end Extended

namespace Drafting

variable {α β : Type}

theorem bind_apply (m : Drafting α) (k : α → Drafting β) (d : Draft) :
    (m >>= k) d = k (m d).1 (m d).2 := rfl

theorem pure_apply (a : α) (d : Draft) : (pure a : Drafting α) d = (a, d) := rfl

end Drafting

namespace Draft

variable (d : Draft)

theorem label_apply : label d = (⟨d.nextLabel⟩, d.extended [] 0 1) := by
  simp [label, extended, modifyGet, MonadStateOf.modifyGet, StateT.modifyGet, pure]

theorem const_apply (value : Scalar) :
    const value d = (⟨d.nextVar⟩, d.extended [.const ⟨d.nextVar⟩ value] 1 0) := rfl

theorem dup_apply (ty : Ty) (src : Var) :
    dup ty src d = ((⟨d.nextVar⟩, ⟨d.nextVar + 1⟩),
      d.extended [.dup ty src ⟨d.nextVar⟩ ⟨d.nextVar + 1⟩] 2 0) := rfl

theorem storeTemp_apply (ty : Ty) (src : Var) :
    storeTemp ty src d = (⟨d.nextVar⟩, d.extended [.storeTemp ty src ⟨d.nextVar⟩] 1 0) := rfl

theorem rename_apply (ty : Ty) (src : Var) :
    rename ty src d = (⟨d.nextVar⟩, d.extended [.rename ty src ⟨d.nextVar⟩] 1 0) := rfl

theorem callOne_apply (libfunc : String) (args : List Var) :
    callOne libfunc args d = (⟨d.nextVar⟩, d.extended [.call libfunc args [⟨d.nextVar⟩]] 1 0) :=
  rfl

theorem placeOne_apply (l : Label) (ty : Ty) :
    placeOne l ty d = (⟨d.nextVar⟩, d.extended [.label l [(⟨d.nextVar⟩, ty)]] 1 0) := rfl

theorem place_nil_apply (l : Label) :
    place l [] d = ([], d.extended [.label l []] 0 0) := rfl

theorem branch_apply (target : Label) (args : List Var) :
    branch target args d = ((), d.extended [.branch target args] 0 0) := rfl

theorem condBranch_apply (cond : Var) (onTrue : Label) (trueArgs : List Var) (onFalse : Label)
    (falseArgs : List Var) :
    condBranch cond onTrue trueArgs onFalse falseArgs d =
      ((), d.extended [.condBranch cond onTrue trueArgs onFalse falseArgs] 0 0) := rfl

theorem ret_apply (args : List Var) : ret args d = ((), d.extended [.ret args] 0 0) := rfl

end Draft

end FieldSSA
