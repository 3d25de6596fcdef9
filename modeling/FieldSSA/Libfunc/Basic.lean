import FieldSSA.Builder

namespace FieldSSA

structure Libfunc where
  name : String
  params : List Ty
  results : List Ty
  /-- Build a call on argument values and give the result values. -/
  lower : List ValueId → Build (List ValueId)

namespace Libfunc

def text (l : Libfunc) : String :=
  "LibfuncDef \x7b name: " ++ Text.quoted l.name ++ ", params: " ++ Ty.tags l.params ++
    ", results: " ++ Ty.tags l.results ++ ", .. \x7d"

def ofIntrinsic (name : String) (callee : Intrinsic) : Libfunc :=
  ⟨name, callee.params, callee.results, Build.call callee⟩

def comparison (name : String) (ty : Ty) (pred : Predicate) : Libfunc where
  name := name
  params := [ty, ty]
  results := [.bool]
  lower
    | lhs :: rhs :: _ => return [← Build.cmp pred lhs rhs]
    | _ => return []

/-- The comparison of the first argument with zero. -/
def zeroTest (name : String) (ty : Ty) : Libfunc where
  name := name
  params := [ty]
  results := [.bool]
  lower
    | v :: _ => return [← Build.cmp .eq v (← Build.const (.zero ty))]
    | [] => return []

end Libfunc

end FieldSSA
