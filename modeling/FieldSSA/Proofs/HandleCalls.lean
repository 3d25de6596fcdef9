import FieldSSA.Proofs.Effects
import FieldSSA.Proofs.LowerOps

/-!
Calls to an arena of handles. A call that takes a handle consumes it first and builds after, so
it can fail in two ways. Where the handle is refused nothing has changed. Where no block is open
the builder has not changed either, but the handle is spent, and nothing stands in its place.
-/

namespace FieldSSA

/-- A call to the arena of a workspace. -/
inductive HandleCall where
  | bind (value : ValueId) (ty : Ty) (storage : Storage)
  | consume (h : Handle) (ty : Ty) (opIndex : Nat)
  | duplicate (h : Handle) (ty : Ty) (opIndex : Nat)
  | storeTemp (h : Handle) (ty : Ty) (opIndex : Nat)
  | rename (h : Handle) (ty : Ty) (opIndex : Nat)
deriving DecidableEq

namespace HandleCall

/-- What a call does. It returns the new handles. -/
def action : HandleCall → Working (List Handle)
  | bind value ty storage => do return [← Working.bind value ty storage]
  | consume h ty opIndex => do
    let _ ← Working.consume h ty opIndex
    return []
  | duplicate h ty opIndex => do
    let (first, second) ← Working.duplicate h ty opIndex
    return [first, second]
  | storeTemp h ty opIndex => do return [← Working.storeTemp h ty opIndex]
  | rename h ty opIndex => do return [← Working.rename h ty opIndex]

/-- The handle that a call consumes, the type that it expects and the operation that it is for. -/
def target? : HandleCall → Option (Handle × Ty × Nat)
  | bind _ _ _ => none
  | consume h ty opIndex | duplicate h ty opIndex | storeTemp h ty opIndex
  | rename h ty opIndex => some (h, ty, opIndex)

/-- Whether a call adds an instruction after it has consumed its handle. -/
def builds : HandleCall → Bool
  | duplicate _ _ _ | storeTemp _ _ _ | rename _ _ _ => true
  | bind _ _ _ | consume _ _ _ => false

/-- Where the new handles of a call are stored. -/
def storages (a : Arena) (source : HandleEntry) : HandleCall → List Storage
  | bind _ _ storage => [storage]
  | consume _ _ _ => []
  | duplicate _ _ _ => [source.storage, source.storage]
  | storeTemp _ _ _ => [.temp a.slots]
  | rename _ _ _ => [source.storage]

def slots : HandleCall → Nat
  | storeTemp _ _ _ => 1
  | _ => 0

end HandleCall

namespace Arena

variable {a : Arena} {h : Handle} {ty : Ty} {e : HandleEntry}

def next (a : Arena) (count : Nat) : List Handle :=
  (List.range' a.entries.length count).map Handle.mk

/-- New entries, and slots for some of them. -/
def grown (a : Arena) (new : List HandleEntry) (slots : Nat) : Arena :=
  { entries := a.entries ++ new, slots := a.slots + slots }

theorem grown_nil (a : Arena) : a.grown [] 0 = a := by
  simp [grown]

@[simp]
theorem length_markConsumed (a : Arena) (h : Handle) (opIndex : Nat) :
    (a.markConsumed h opIndex).entries.length = a.entries.length :=
  List.length_modify _ _ _

theorem checkLive_eq_ok_iff :
    a.checkLive h ty = .ok e ↔ a.entry? h = some e ∧ e.consumedAt = none ∧ e.ty = ty := by
  unfold checkLive
  cases hentry : a.entry? h with
  | none => simp
  | some found =>
      simp only [Option.some.injEq]
      cases hconsumed : found.consumedAt with
      | some opIndex =>
          simp only [reduceCtorEq, false_iff, not_and]
          rintro rfl hlive
          simp [hconsumed] at hlive
      | none =>
          by_cases hty : found.ty = ty
          · simp only [if_pos hty, Except.ok.injEq]
            constructor
            · rintro rfl
              exact ⟨rfl, hconsumed, hty⟩
            · exact fun hfound => hfound.1
          · simp only [if_neg hty, reduceCtorEq, false_iff, not_and]
            rintro rfl -
            exact hty

theorem isLive_of_checkLive (hlive : a.checkLive h ty = .ok e) : a.isLive h = true := by
  obtain ⟨hentry, hconsumed, -⟩ := checkLive_eq_ok_iff.mp hlive
  simp [isLive, hentry, hconsumed]

theorem checkLive_ne_builder (a : Arena) (h : Handle) (ty : Ty) (cause : IrError) :
    a.checkLive h ty ≠ .error (.builder cause) := by
  unfold checkLive
  split
  · simp
  · split
    · simp
    · split <;> simp

end Arena

namespace Build

variable {α : Type} {b : Builder}

/-- Building steps that only fail where no block is open, and then do nothing. -/
def NeedsOpen (steps : Build α) : Prop :=
  ∀ b, (∃ cause, openBlock b = (.error cause, b) ∧ steps b = (.error cause, b)) ∨
    ∃ x b', steps b = (.ok x, b')

theorem needsOpen_move (callee : Intrinsic) (v : ValueId) (result : ValueId → α) :
    NeedsOpen (do let next ← nextValue; let _ ← call callee [v]; return result next) := by
  intro b
  have hnext : nextValue b = (.ok ⟨b.valueTypes.length⟩, b) := rfl
  have hsame := moves_eq_openBlock b
  rw [bind_apply_of_ok hnext]
  rcases hopen : openBlock b with ⟨cause | id, b'⟩
  · obtain rfl : b = b' := by simpa [hopen] using hsame
    exact .inl ⟨cause, rfl, bind_apply_of_error (call_of_error hopen callee [v]) _⟩
  · have hcall : call callee [v] b = (.ok (b.fresh callee.results), b'.append id
        (.call callee [v] (b.fresh callee.results)) callee.results) := by
      rw [call, bind_apply_of_ok (get_apply b)]
      refine bind_apply_of_ok (a := ()) ?_ _
      rw [push, bind_apply_of_ok hopen]
      rfl
    exact .inr ⟨result ⟨b.valueTypes.length⟩, _, bind_apply_of_ok hcall _⟩

end Build

theorem Working.bind_apply (value : ValueId) (ty : Ty) (storage : Storage) (w : Workspace) :
    Working.bind value ty storage w =
      (.ok ⟨w.arena.entries.length⟩,
        { w with arena := w.arena.grown [{ value, ty, storage }] 0 }) :=
  rfl

namespace HandleCall

variable {call : HandleCall} {w w' : Workspace} {h : Handle} {ty : Ty} {opIndex : Nat}
  {result : Except ArenaError (List Handle)}

/-- All that a call can do. -/
inductive Did (call : HandleCall) (w : Workspace) :
    Except ArenaError (List Handle) → Workspace → Prop
  | bound {value : ValueId} {ty : Ty} {storage : Storage} : call = .bind value ty storage →
      Did call w (.ok (w.arena.next 1))
        { w with arena := w.arena.grown [{ value, ty, storage }] 0 }
  | refused {h : Handle} {ty : Ty} {opIndex : Nat} {e : ArenaError} :
      call.target? = some (h, ty, opIndex) → w.arena.checkLive h ty = .error e →
        Did call w (.error e) w
  | burnt {h : Handle} {ty : Ty} {opIndex : Nat} {source : HandleEntry} {cause : IrError} :
      call.target? = some (h, ty, opIndex) → w.arena.checkLive h ty = .ok source →
        call.builds = true → Build.openBlock w.builder = (.error cause, w.builder) →
        Did call w (.error (.builder cause))
          { w with arena := w.arena.markConsumed h opIndex }
  | replaced {h : Handle} {ty : Ty} {opIndex : Nat} {source : HandleEntry} {b : Builder}
      {new : List HandleEntry} :
      call.target? = some (h, ty, opIndex) → w.arena.checkLive h ty = .ok source →
        new.map HandleEntry.storage = call.storages w.arena source →
        (∀ e ∈ new, e.ty = ty ∧ e.consumedAt = none) →
        Did call w (.ok (w.arena.next new.length))
          ⟨b, (w.arena.markConsumed h opIndex).grown new call.slots⟩

theorem Did.eq_error {e : ArenaError} (hdid : call.Did w result w')
    (htarget : call.target? = some (h, ty, opIndex)) (hlive : w.arena.checkLive h ty = .error e) :
    result = .error e := by
  cases hdid with
  | bound hcall =>
      subst hcall
      cases htarget
  | refused htarget' hlive' =>
      cases htarget.symm.trans htarget'
      exact congrArg Except.error (Except.error.inj (hlive'.symm.trans hlive))
  | burnt htarget' hlive' =>
      cases htarget.symm.trans htarget'
      cases hlive.symm.trans hlive'
  | replaced htarget' hlive' =>
      cases htarget.symm.trans htarget'
      cases hlive.symm.trans hlive'

theorem did_of_move {α : Type} (steps : ValueId → Build α)
    {bindings : HandleEntry → α → Working (List Handle)}
    (hbuilds : call.builds = true) (htarget : call.target? = some (h, ty, opIndex))
    (hsteps : ∀ v, Build.NeedsOpen (steps v))
    (haction : call.action = do
      let e ← Working.consume h ty opIndex
      let a ← Working.build (steps e.value)
      bindings e a)
    (hbindings : ∀ source a b, ∃ new : List HandleEntry,
      new.map HandleEntry.storage = call.storages w.arena source ∧
      (∀ e ∈ new, e.ty = ty ∧ e.consumedAt = none) ∧
      bindings { source with consumedAt := some opIndex } a
          ⟨b, w.arena.markConsumed h opIndex⟩ =
        (.ok (w.arena.next new.length),
          ⟨b, (w.arena.markConsumed h opIndex).grown new call.slots⟩)) :
    call.Did w (call.action w).1 (call.action w).2 := by
  rw [haction]
  cases hlive : w.arena.checkLive h ty with
  | error e =>
      rw [bind_apply_of_error (Working.consume_of_checkLive_error opIndex hlive)]
      exact .refused htarget hlive
  | ok source =>
      rcases hsteps source.value w.builder with ⟨cause, hclosed, hfail⟩ | ⟨a, b, hok⟩
      · -- the handle is marked before the builder is asked, and nothing unmarks it
        rw [bind_apply_of_ok (Working.consume_of_checkLive opIndex hlive)]
        have hbuild : Working.build (steps source.value)
            { w with arena := w.arena.markConsumed h opIndex } =
            (.error (.builder cause), { w with arena := w.arena.markConsumed h opIndex }) := by
          simp [Working.build, hfail, Except.mapError]
        rw [bind_apply_of_error hbuild]
        exact .burnt htarget hlive hbuilds hclosed
      · obtain ⟨new, hstorages, hnew, heq⟩ := hbindings source a b
        rw [Working.consume_build steps opIndex hlive hok, heq]
        exact .replaced htarget hlive hstorages hnew

theorem did_action (call : HandleCall) (w : Workspace) :
    call.Did w (call.action w).1 (call.action w).2 := by
  cases call with
  | bind value ty storage => exact .bound rfl
  | consume h ty opIndex =>
      rw [action]
      cases hlive : w.arena.checkLive h ty with
      | error e =>
          rw [bind_apply_of_error (Working.consume_of_checkLive_error opIndex hlive)]
          exact .refused rfl hlive
      | ok source =>
          rw [bind_apply_of_ok (Working.consume_of_checkLive opIndex hlive)]
          show Did _ w (.ok []) ⟨w.builder, w.arena.markConsumed h opIndex⟩
          rw [← Arena.grown_nil (w.arena.markConsumed h opIndex)]
          exact .replaced rfl hlive rfl (List.forall_mem_nil _)
  | duplicate h ty opIndex =>
      refine did_of_move (Build.dup ty) rfl rfl (fun v => Build.needsOpen_move _ v _)
        (by simp only [action, Working.duplicate, bind_assoc, pure_bind]; rfl) ?_
      rintro source ⟨first, second⟩ b
      refine ⟨[⟨first, ty, source.storage, none⟩, ⟨second, ty, source.storage, none⟩], rfl,
        by simp, ?_⟩
      dsimp only
      rw [bind_apply_of_ok (Working.bind_apply _ _ _ _),
        bind_apply_of_ok (Working.bind_apply _ _ _ _)]
      show (Except.ok [Handle.mk _, Handle.mk _], _) = _
      simp only [Arena.next, Arena.grown, slots, Arena.length_markConsumed, List.length_append,
        List.append_assoc]
      rfl
  | storeTemp h ty opIndex =>
      refine did_of_move (Build.storeTemp ty) rfl rfl (fun v => Build.needsOpen_move _ v _)
        (by simp only [action, Working.storeTemp, bind_assoc]; rfl) ?_
      intro source stored b
      refine ⟨[⟨stored, ty, .temp w.arena.slots, none⟩], rfl, by simp, ?_⟩
      have hslots : (w.arena.markConsumed h opIndex).slots = w.arena.slots := rfl
      show (Except.ok [Handle.mk _], _) = _
      simp [Arena.next, Arena.grown, slots, hslots]
  | rename h ty opIndex =>
      refine did_of_move (Build.rename ty) rfl rfl (fun v => Build.needsOpen_move _ v _)
        (by simp only [action, Working.rename, bind_assoc]; rfl) ?_
      intro source renamed b
      refine ⟨[⟨renamed, ty, source.storage, none⟩], rfl, by simp, ?_⟩
      show (Except.ok [Handle.mk _], _) = _
      simp [Arena.next, Arena.grown, slots]

/-- A call that fails leaves the builder as it was. It leaves the arena as it was too, unless the
builder was the cause: then a call that builds has consumed its live handle, and done nothing
else. -/
theorem failure_keeps_or_burns (call : HandleCall) (w w' : Workspace) (e : ArenaError)
    (hfail : call.action w = (.error e, w')) :
    w'.builder = w.builder ∧
      ((w' = w ∧ ∀ cause, e ≠ .builder cause) ∨
        ∃ h ty opIndex cause, call.target? = some (h, ty, opIndex) ∧ call.builds = true ∧
          Build.openBlock w.builder = (.error cause, w.builder) ∧ e = .builder cause ∧
          w.arena.isLive h = true ∧ w'.arena = w.arena.markConsumed h opIndex) := by
  have hdid := did_action call w
  rw [hfail] at hdid
  cases hdid with
  | refused htarget hlive =>
      refine ⟨rfl, .inl ⟨rfl, ?_⟩⟩
      rintro cause rfl
      exact Arena.checkLive_ne_builder _ _ _ cause hlive
  | burnt htarget hlive hbuilds hclosed =>
      exact ⟨rfl, .inr ⟨_, _, _, _, htarget, hbuilds, hclosed, rfl,
        Arena.isLive_of_checkLive hlive, rfl⟩⟩

/-- A handle is live, but the only block has returned. -/
def finished : Workspace where
  builder := (Builder.ofSignature ⟨"f", [.felt252], [.felt252]⟩).after [.ret [⟨0⟩]]
  arena := (Arena.bind {} ⟨0⟩ .felt252 (.param 0)).2

theorem finished_rename_failure :
    ∃ w', (rename ⟨0⟩ .felt252 5).action finished =
        (.error (.builder (.builder .noCurrentBlock)), w') ∧
      w'.builder = finished.builder ∧ w'.arena = finished.arena.markConsumed ⟨0⟩ 5 := by
  have hfail : (rename ⟨0⟩ .felt252 5).action finished =
      (.error (.builder (.builder .noCurrentBlock)),
        ((rename ⟨0⟩ .felt252 5).action finished).2) := rfl
  obtain ⟨hbuilder, ⟨-, hother⟩ | ⟨h, ty, opIndex, cause, htarget, -, -, -, -, harena⟩⟩ :=
    failure_keeps_or_burns _ _ _ _ hfail
  · exact absurd rfl (hother _)
  · cases htarget
    exact ⟨_, hfail, hbuilder, harena⟩

/-- Each of the calls that build fails and loses the live handle that it was given. -/
theorem finished_loses_handle :
    finished.arena.isLive ⟨0⟩ = true ∧
      ∀ call ∈ [duplicate ⟨0⟩ .felt252 5, storeTemp ⟨0⟩ .felt252 5, rename ⟨0⟩ .felt252 5],
        (call.action finished).1 = .error (.builder (.builder .noCurrentBlock)) ∧
          (call.action finished).2 ≠ finished ∧
          (call.action finished).2.arena.isLive ⟨0⟩ = false := by
  decide

end HandleCall

end FieldSSA
