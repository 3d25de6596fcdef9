import FieldSSA.Proofs.Correspondence
import FieldSSA.Proofs.LowerOutcome

namespace FieldSSA

namespace LowerState

variable {s : LowerState} {v w : Var} {h : Handle} {e : HandleEntry} {opIndex : Nat}

/-- The entry of a variable in scope. -/
def env (s : LowerState) (v : Var) : Option HandleEntry :=
  (s.scope.lookup v).bind fun h => s.workspace.arena.entries[h.index]?

/-- The value of a variable in scope. -/
def value? (s : LowerState) (v : Var) : Option ValueId :=
  (s.env v).map HandleEntry.value

/-- The handles in scope exist, and no two variables share one. -/
structure Scoped (s : LowerState) : Prop where
  bounded : ∀ p ∈ s.scope, p.2.index < s.workspace.arena.entries.length
  handles : (s.scope.map Prod.snd).Nodup

/-- An operation consumes a handle. -/
def consumed (s : LowerState) (h : Handle) (opIndex : Nat) : LowerState :=
  { s with workspace := { s.workspace with arena := s.workspace.arena.markConsumed h opIndex } }

/-- A variable comes into scope with a new entry. -/
def introduced (s : LowerState) (v : Var) (e : HandleEntry) : LowerState :=
  { s with
    workspace := { s.workspace with arena := { s.workspace.arena with
      entries := s.workspace.arena.entries ++ [e] } }
    scope := (v, ⟨s.workspace.arena.entries.length⟩) :: s.scope }

@[simp]
theorem consumed_builder : (s.consumed h opIndex).workspace.builder = s.workspace.builder := rfl

@[simp]
theorem introduced_builder : (s.introduced v e).workspace.builder = s.workspace.builder := rfl

theorem env_eq_none_iff (hs : s.Scoped) : s.env v = none ↔ s.scope.lookup v = none := by
  constructor
  · intro hnone
    cases hv : s.scope.lookup v with
    | none => rfl
    | some h =>
        have hlt := hs.bounded _ (mem_of_lookup_eq_some hv)
        have hle : s.workspace.arena.entries.length ≤ h.index := by simpa [env, hv] using hnone
        exact absurd hlt (Nat.not_lt.mpr hle)
  · intro hv
    simp [env, hv]

theorem Scoped.consumed (hs : s.Scoped) : (s.consumed h opIndex).Scoped := by
  refine ⟨fun p hp => ?_, hs.handles⟩
  have hlt := hs.bounded p hp
  simpa [LowerState.consumed, Arena.markConsumed] using hlt

theorem env_consumed (hs : s.Scoped) (hv : s.scope.lookup v = some h) (opIndex : Nat) (w : Var) :
    (s.consumed h opIndex).env w =
      if w = v then (s.env v).map fun e => { e with consumedAt := some opIndex }
      else s.env w := by
  simp only [env, consumed, Arena.markConsumed]
  split
  · rename_i heq
    subst heq
    simp [hv]
  · rename_i hne
    cases hw : s.scope.lookup w with
    | none => rfl
    | some h' =>
        -- Two variables with one handle would be one entry of the scope.
        have hdistinct : h'.index ≠ h.index := by
          intro hindex
          have hmem := mem_of_lookup_eq_some hv
          have hmem' := mem_of_lookup_eq_some hw
          have hpair := List.inj_on_of_nodup_map hs.handles hmem' hmem (congrArg Handle.mk hindex)
          exact hne (congrArg Prod.fst hpair)
        simp [List.getElem?_modify_ne _ _ hdistinct.symm]

theorem Scoped.introduced (hs : s.Scoped) : (s.introduced v e).Scoped := by
  constructor
  · intro p hp
    simp only [LowerState.introduced, List.length_append, List.length_singleton]
    rcases List.mem_cons.mp hp with rfl | hp
    · exact Nat.lt_succ_self _
    · exact Nat.lt_succ_of_lt (hs.bounded p hp)
  · refine List.nodup_cons.mpr ⟨?_, hs.handles⟩
    intro hmem
    obtain ⟨p, hp, heq⟩ := List.mem_map.mp hmem
    have hlt := hs.bounded p hp
    rw [heq] at hlt
    exact Nat.lt_irrefl _ hlt

theorem env_introduced (hs : s.Scoped) (v : Var) (e : HandleEntry) (w : Var) :
    (s.introduced v e).env w = if w = v then some e else s.env w := by
  simp only [env, introduced, List.lookup_cons]
  split
  · rename_i heq
    have hwv : w = v := by simpa using heq
    simp [hwv]
  · rename_i heq
    have hne : w ≠ v := by simpa using heq
    cases hw : s.scope.lookup w with
    | none => simp [hne]
    | some h =>
        have hlt := hs.bounded _ (mem_of_lookup_eq_some hw)
        simp [hne, List.getElem?_append_left hlt]

/-- The entries in scope agree with the ledger of the open segment, and with the types of
their values. -/
structure Tracks (g : Ledger) (s : LowerState) : Prop where
  isScoped : s.Scoped
  defined : ∀ v ty, (v, ty) ∈ g.defined ↔ ∃ e, s.env v = some e ∧ e.ty = ty
  used : ∀ v, v ∈ g.used ↔ ∃ e, s.env v = some e ∧ e.consumedAt.isSome = true
  stored : ∀ v, v ∈ g.stored ↔ ∃ e, s.env v = some e ∧ e.storage.isMaterialized = true
  typed : ∀ v e, s.env v = some e → s.workspace.builder.draft.HasType e.value e.ty

variable {g : Ledger}

theorem Tracks.mem_defined_iff (ht : Tracks g s) :
    v ∈ g.defined.map Prod.fst ↔ ∃ e, s.env v = some e := by
  simp only [List.mem_map, Prod.exists, exists_and_right, exists_eq_right, ht.defined]
  constructor
  · rintro ⟨ty, e, he, -⟩
    exact ⟨e, he⟩
  · rintro ⟨e, he⟩
    exact ⟨e.ty, e, he, rfl⟩

theorem Tracks.value? (ht : Tracks g s) {x : ValueId} {ty : Ty} (hdef : (v, ty) ∈ g.defined)
    (hx : s.value? v = some x) : s.workspace.builder.draft.HasType x ty := by
  obtain ⟨e, he, rfl⟩ := (ht.defined v ty).mp hdef
  obtain rfl : e.value = x := by simpa [LowerState.value?, he] using hx
  exact ht.typed v e he

theorem value?_consumed (hs : s.Scoped) (hv : s.scope.lookup v = some h) :
    (s.consumed h opIndex).value? = s.value? := by
  funext w
  simp only [LowerState.value?, env_consumed hs hv]
  split
  · rename_i heq
    subst heq
    cases s.env w <;> rfl
  · rfl

theorem Tracks.consumed (ht : Tracks g s) (hv : s.scope.lookup v = some h) :
    Tracks (g.use [v]) (s.consumed h opIndex) := by
  have henv := env_consumed ht.isScoped hv opIndex
  obtain ⟨e, he⟩ : ∃ e, s.env v = some e := by
    refine Option.ne_none_iff_exists'.mp fun hnone => ?_
    rw [env_eq_none_iff ht.isScoped, hv] at hnone
    simp at hnone
  refine ⟨ht.isScoped.consumed, fun w ty => ?_, fun w => ?_, fun w => ?_, fun w e' => ?_⟩
  · rw [henv, Ledger.use, ht.defined]
    by_cases hw : w = v <;> simp [hw, he]
  · rw [henv, Ledger.use, List.mem_append, ht.used]
    by_cases hw : w = v <;> simp [hw, he]
  · rw [henv, Ledger.use, ht.stored]
    by_cases hw : w = v <;> simp [hw, he]
  · rw [henv]
    by_cases hw : w = v
    · simp only [hw, he, if_true, Option.map_some, Option.some.injEq]
      rintro rfl
      exact ht.typed v e he
    · simpa [hw] using ht.typed w e'

theorem Tracks.introduced (ht : Tracks g s) (hv : v ∉ g.defined.map Prod.fst)
    (hlive : e.consumedAt = none)
    (htyped : s.workspace.builder.draft.HasType e.value e.ty) :
    Tracks ⟨g.defined ++ [(v, e.ty)], g.used,
      g.stored ++ if e.storage.isMaterialized then [v] else []⟩ (s.introduced v e) := by
  have henv := env_introduced ht.isScoped v e
  have hnone : s.env v = none := by
    refine Option.eq_none_iff_forall_ne_some.mpr fun e' he' => ?_
    exact hv (ht.mem_defined_iff.mpr ⟨e', he'⟩)
  refine ⟨ht.isScoped.introduced, fun w ty => ?_, fun w => ?_, fun w => ?_, fun w e' => ?_⟩
  · rw [henv, List.mem_append, ht.defined]
    by_cases hw : w = v
    · simp [hw, hnone, eq_comm]
    · simp [hw]
  · rw [henv, ht.used]
    by_cases hw : w = v <;> simp [hw, hnone, hlive]
  · rw [henv, List.mem_append, ht.stored]
    by_cases hw : w = v <;> by_cases hm : e.storage.isMaterialized = true <;> simp [hw, hnone, hm]
  · rw [henv]
    by_cases hw : w = v
    · simp only [hw, if_true, Option.some.injEq]
      rintro rfl
      exact htyped
    · simpa [hw] using ht.typed w e'

theorem Tracks.built (ht : Tracks g s) {b : Builder}
    (hgrow : s.workspace.builder.valueTypes <+: b.valueTypes) :
    Tracks g (s.built b) := by
  refine ⟨⟨ht.isScoped.bounded, ht.isScoped.handles⟩, ht.defined, ht.used, ht.stored, ?_⟩
  intro v e he
  exact Builder.hasType_of_grows hgrow (ht.typed v e he)

end LowerState

end FieldSSA
