import FieldSSA.Proofs.LowerBody

namespace FieldSSA

/-- The label that an operation places, with the types of its parameters. -/
def Op.declares? : Op → Option (Label × List Ty)
  | .label l params => some (l, params.map Prod.snd)
  | _ => none

/-- The labels that operations place, in order and with the types of their parameters. -/
def declaredLabels (os : List Op) : List (Label × List Ty) :=
  os.filterMap Op.declares?

theorem map_fst_declaredLabels (os : List Op) :
    (declaredLabels os).map Prod.fst = placedLabels os := by
  induction os with
  | nil => rfl
  | cons o rest ih =>
      cases o with
      | label l params => exact congrArg (l :: ·) ih
      | _ => exact ih

namespace LowerState

variable {s : LowerState} {l : Label}

/-- Labels get new blocks, in order. -/
def declaredAll (s : LowerState) (labels : List (Label × List Ty)) : LowerState :=
  labels.foldl (fun s p => s.declared p.1 p.2) s

theorem declaredAll_cons (s : LowerState) (l : Label) (types : List Ty)
    (labels : List (Label × List Ty)) :
    s.declaredAll ((l, types) :: labels) = (s.declared l types).declaredAll labels := rfl

theorem length_blocks_declared (s : LowerState) (l : Label) (types : List Ty) :
    (s.declared l types).workspace.builder.blocks.length =
      s.workspace.builder.blocks.length + 1 := by
  simp [declared, built, Builder.addBlock]

theorem length_blocks_declaredAll (s : LowerState) (labels : List (Label × List Ty)) :
    (s.declaredAll labels).workspace.builder.blocks.length =
      s.workspace.builder.blocks.length + labels.length := by
  induction labels generalizing s with
  | nil => rfl
  | cons p rest ih =>
      rw [declaredAll_cons, ih, length_blocks_declared, List.length_cons]
      omega

theorem lookup_declaredAll_of_notMem {labels : List (Label × List Ty)}
    (h : l ∉ labels.map Prod.fst) : (s.declaredAll labels).labels.lookup l = s.labels.lookup l := by
  induction labels generalizing s with
  | nil => rfl
  | cons p rest ih =>
      rw [List.map_cons, List.mem_cons, not_or] at h
      rw [declaredAll_cons, ih h.2, lookup_declared, if_neg h.1]

/-- The block of a label is as many places after the blocks that were there as the label is among
the labels. -/
theorem lookup_declaredAll {labels : List (Label × List Ty)}
    (hdistinct : (labels.map Prod.fst).Nodup) (hl : l ∈ labels.map Prod.fst) :
    (s.declaredAll labels).labels.lookup l =
      some ⟨s.workspace.builder.blocks.length + (labels.map Prod.fst).idxOf l⟩ := by
  induction labels generalizing s with
  | nil => simp at hl
  | cons p rest ih =>
      rw [List.map_cons, List.nodup_cons] at hdistinct
      rw [declaredAll_cons, List.map_cons]
      by_cases heq : l = p.1
      · subst heq
        rw [lookup_declaredAll_of_notMem hdistinct.1, lookup_declared, if_pos rfl,
          List.idxOf_cons_self, Nat.add_zero]
      · have hmem : l ∈ rest.map Prod.fst := (List.mem_cons.mp hl).resolve_left heq
        rw [ih hdistinct.2 hmem, length_blocks_declared, List.idxOf_cons_ne _ (Ne.symm heq),
          Nat.add_right_comm]
        rfl

end LowerState

namespace LowerState

/-- What is reported of a state when lowering is done. -/
def summary (s : LowerState) : Summary :=
  ⟨s.workspace.builder.blocks.length, s.workspace.arena.entries.length, s.workspace.arena.slots,
    s.workspace.arena.live.length⟩

/-- Operations place new labels, and none of them twice. -/
def Undeclared (s : LowerState) (os : List Op) : Prop :=
  (placedLabels os).Nodup ∧ ∀ l ∈ placedLabels os, s.labels.lookup l = none

theorem undeclared_nil (s : LowerState) : Undeclared s [] := by
  simp [Undeclared, placedLabels]

theorem undeclared_cons_iff {s : LowerState} {o : Op} (h : o.isLabel = false) (rest : List Op) :
    Undeclared s (o :: rest) ↔ Undeclared s rest := by
  rw [Undeclared, placedLabels_cons h, Undeclared]

theorem undeclared_label_iff {s : LowerState} {l : Label} {params : List (Var × Ty)}
    {rest : List Op} :
    Undeclared s (.label l params :: rest) ↔
      s.labels.lookup l = none ∧ Undeclared (s.declared l (params.map Prod.snd)) rest := by
  rw [Undeclared, Lower.nodup_label_iff (params.map Prod.snd), Option.not_isSome_iff_eq_none,
    Undeclared]

end LowerState

namespace Lower

open LowerState

variable {c : LowerContext} {s : LowerState} {opIndex : Nat}

theorem exec_declareLabels_label {l : Label} (params : List (Var × Ty)) (rest : List Op)
    (h : s.labels.lookup l = none) :
    (declareLabels opIndex (.label l params :: rest)).exec c s =
      (declareLabels (opIndex + 1) rest).exec c (s.declared l (params.map Prod.snd)) := by
  rw [declareLabels, exec_bind, exec_get, ok_bind]
  simp only [h, Option.isSome_none, Bool.false_eq_true, if_false]
  rfl

theorem exec_declareLabels_of_isSome {l : Label} (params : List (Var × Ty)) (rest : List Op)
    (h : (s.labels.lookup l).isSome) :
    (declareLabels opIndex (.label l params :: rest)).exec c s =
      .error (.malformed c.function opIndex (.duplicateLabel l)) := by
  rw [declareLabels, exec_bind, exec_get, ok_bind, if_pos h, exec_bind, exec_malformed, error_bind]

/-- The pass gives all labels their blocks, or stops at the first one that is not new. -/
theorem declareLabels_cases (c : LowerContext) (opIndex : Nat) (os : List Op) (s : LowerState) :
    (Undeclared s os ∧
      (declareLabels opIndex os).exec c s = .ok ((), s.declaredAll (declaredLabels os))) ∨
    ∃ before l params after, os = before ++ .label l params :: after ∧ Undeclared s before ∧
      ¬ Undeclared s (before ++ [.label l params]) ∧
      (declareLabels opIndex os).exec c s =
        .error (.malformed c.function (opIndex + before.length) (.duplicateLabel l)) := by
  induction os generalizing opIndex s with
  | nil => exact .inl ⟨undeclared_nil s, rfl⟩
  | cons o rest ih =>
      cases o with
      | label l params =>
          cases hl : s.labels.lookup l with
          | some id =>
              have hsome : (s.labels.lookup l).isSome := by simp [hl]
              refine .inr ⟨[], l, params, rest, rfl, undeclared_nil s, ?_,
                exec_declareLabels_of_isSome params rest hsome⟩
              rw [List.nil_append, undeclared_label_iff, hl]
              simp
          | none =>
              rw [exec_declareLabels_label params rest hl, undeclared_label_iff]
              rcases ih (opIndex + 1) (s.declared l (params.map Prod.snd)) with ⟨hnew, hexec⟩ |
                ⟨before, m, params', after, rfl, hbefore, htwice, hexec⟩
              · exact .inl ⟨⟨hl, hnew⟩, hexec⟩
              · refine .inr ⟨.label l params :: before, m, params', after, rfl,
                  undeclared_label_iff.mpr ⟨hl, hbefore⟩, ?_, ?_⟩
                · rw [List.cons_append, undeclared_label_iff]
                  exact fun h => htwice h.2
                · rw [hexec, List.length_cons, Nat.add_assoc, Nat.add_comm 1]
      | _ =>
          rw [undeclared_cons_iff rfl]
          rcases ih (opIndex + 1) s with ⟨hnew, hexec⟩ |
            ⟨before, m, params', after, rfl, hbefore, htwice, hexec⟩
          · exact .inl ⟨hnew, hexec⟩
          · refine .inr ⟨_ :: before, m, params', after, rfl,
              (undeclared_cons_iff rfl before).mpr hbefore, ?_, ?_⟩
            · rw [List.cons_append, undeclared_cons_iff rfl]
              exact htwice
            · rw [List.length_cons, Nat.add_comm before.length, ← Nat.add_assoc]
              exact hexec

/-- What follows the pass over the labels. -/
def bodyAfterLabels (params : List Var) (os : List Op) : Lower Summary := do
  bindEntry params
  ops 0 os
  let s ← get
  if s.workspace.builder.current.isSome then malformed os.length .unterminatedBlock
  return s.summary

theorem body_eq (params : List Var) (os : List Op) :
    body params os = declareLabels 0 os >>= fun _ => bodyAfterLabels params os := rfl

end Lower

section Initial

variable {src : Source}

theorem undeclared_initial_iff (os : List Op) :
    (LowerState.initial src).Undeclared os ↔ (placedLabels os).Nodup := by
  simp [LowerState.Undeclared, LowerState.initial]

/-- The pass over a source: the labels get the blocks after the entry, or the first label that is
placed a second time is reported at that place. -/
theorem Lower.declareLabels_initial (c : LowerContext) (src : Source) :
    ((placedLabels src.ops).Nodup ∧ (declareLabels 0 src.ops).exec c (.initial src) =
      .ok ((), (LowerState.initial src).declaredAll (declaredLabels src.ops))) ∨
    ∃ before l params after, src.ops = before ++ .label l params :: after ∧
      (placedLabels before).Nodup ∧ l ∈ placedLabels before ∧
      (declareLabels 0 src.ops).exec c (.initial src) =
        .error (.malformed c.function before.length (.duplicateLabel l)) := by
  rcases declareLabels_cases c 0 src.ops (.initial src) with ⟨hnew, hexec⟩ |
    ⟨before, l, params, after, hops, hbefore, htwice, hexec⟩
  · exact .inl ⟨(undeclared_initial_iff _).mp hnew, hexec⟩
  · rw [undeclared_initial_iff] at hbefore htwice
    rw [Nat.zero_add] at hexec
    refine .inr ⟨before, l, params, after, hops, hbefore, ?_, hexec⟩
    by_contra hl
    have happend : placedLabels (before ++ [.label l params]) = placedLabels before ++ [l] := by
      simp [placedLabels, Op.placed?]
    rw [happend, List.nodup_append'] at htwice
    exact htwice ⟨hbefore, List.nodup_singleton l, by simpa using hl⟩

end Initial

end FieldSSA
