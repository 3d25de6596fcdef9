import FieldSSA.Libfunc.Builtin

namespace FieldSSA

structure Registry where
  libfuncs : List Libfunc
  names_nodup : (libfuncs.map Libfunc.name).Nodup

namespace Registry

def get? (r : Registry) (name : String) : Option Libfunc :=
  r.libfuncs.find? fun l => l.name == name

def contains (r : Registry) (name : String) : Bool :=
  (r.get? name).isSome

def erase (r : Registry) (name : String) : Registry where
  libfuncs := r.libfuncs.filter fun l => l.name != name
  names_nodup := r.names_nodup.sublist (List.filter_sublist.map _)

/-- The registry with a libfunc under its name, in place of one that had it. -/
def insert (r : Registry) (l : Libfunc) : Registry where
  libfuncs := (r.erase l.name).libfuncs ++ [l]
  names_nodup := by
    rw [List.map_append, List.nodup_append]
    refine ⟨(r.erase l.name).names_nodup, by simp, ?_⟩
    intro a ha b hb
    simp only [erase, List.mem_map, List.mem_filter, bne_iff_ne] at ha
    obtain ⟨k, ⟨-, hk⟩, rfl⟩ := ha
    simpa using fun h => hk (h.trans (by simpa using hb))

def names (r : Registry) : List String :=
  (r.libfuncs.map Libfunc.name).mergeSort fun a b => decide (a ≤ b)

def empty : Registry :=
  ⟨[], List.nodup_nil⟩

def default : Registry :=
  ⟨Libfunc.builtin, by decide⟩

end Registry

end FieldSSA
