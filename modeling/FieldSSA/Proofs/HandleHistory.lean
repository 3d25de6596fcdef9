import FieldSSA.Proofs.HandleCalls

namespace FieldSSA

/-- A call with the builder that it is given. -/
structure HandleEvent where
  call : HandleCall
  builder : Builder

/-- A call and what it returned. -/
structure HandleRecord where
  call : HandleCall
  result : Except ArenaError (List Handle)

namespace HandleRecord

def issued (r : HandleRecord) : List Handle :=
  match r.result with
  | .ok handles => handles
  | .error _ => []

/-- The handle that a call consumed, and the operation that it did so for. -/
def spent? (r : HandleRecord) : Option (Handle × Nat) :=
  match r.result with
  | .ok _ | .error (.builder _) => r.call.target?.map fun target => (target.1, target.2.2)
  | .error _ => none

def stores (r : HandleRecord) : Bool :=
  match r.call, r.result with
  | .storeTemp _ _ _, .ok _ => true
  | _, _ => false

/-- The handles of temporaries that a call stored. -/
def stored (r : HandleRecord) : List Handle :=
  if r.stores then r.issued else []

theorem stores_error (call : HandleCall) (e : ArenaError) :
    stores ⟨call, .error e⟩ = false := by
  cases call <;> rfl

end HandleRecord

namespace Arena

variable {a a' : Arena} {h k : Handle} {opIndex n : Nat} {new : List HandleEntry}
  {r : HandleRecord} {log : List HandleRecord}

def storage? (a : Arena) (h : Handle) : Option Storage :=
  (a.entry? h).map HandleEntry.storage

/-- The operation that consumed a handle. -/
def consumedAt? (a : Arena) (h : Handle) : Option Nat :=
  (a.entry? h).bind HandleEntry.consumedAt

def handles (a : Arena) : List Handle :=
  (List.range a.entries.length).map Handle.mk

/-- The record of a call, and the arena after it. -/
def perform (a : Arena) (ev : HandleEvent) : HandleRecord × Arena :=
  let (result, w) := ev.call.action ⟨ev.builder, a⟩
  (⟨ev.call, result⟩, w.arena)

def after (a : Arena) (evs : List HandleEvent) : Arena :=
  evs.foldl (fun a ev => (a.perform ev).2) a

def records (a : Arena) : List HandleEvent → List HandleRecord
  | [] => []
  | ev :: rest => (a.perform ev).1 :: (a.perform ev).2.records rest

theorem after_append (a : Arena) (evs more : List HandleEvent) :
    a.after (evs ++ more) = (a.after evs).after more :=
  List.foldl_append

/-- The arena after a handle was consumed, if one was. -/
def spend (a : Arena) : Option (Handle × Nat) → Arena
  | none => a
  | some (h, opIndex) => a.markConsumed h opIndex

theorem entry?_markConsumed (a : Arena) (h : Handle) (opIndex : Nat) (k : Handle) :
    Arena.entry? (a.markConsumed h opIndex) k =
      if k = h then (a.entry? k).map fun e => { e with consumedAt := some opIndex }
      else a.entry? k := by
  have hindex : k = h ↔ h.index = k.index := by
    cases h
    cases k
    simp [eq_comm]
  simp only [markConsumed, entry?, List.getElem?_modify, hindex]
  split <;> simp [*]

theorem entry?_grown_of_some {e : HandleEntry} (hentry : a.entry? h = some e) :
    Arena.entry? (a.grown new n) h = some e := by
  have hlt := (List.getElem?_eq_some_iff.mp hentry).1
  exact (List.getElem?_append_left hlt).trans hentry

theorem consumedAt?_markConsumed {e : HandleEntry} (hentry : a.entry? h = some e) (k : Handle) :
    (a.markConsumed h opIndex).consumedAt? k =
      if k = h then some opIndex else a.consumedAt? k := by
  simp only [consumedAt?, entry?_markConsumed]
  split
  · rename_i heq
    simp [heq, hentry]
  · rfl

theorem consumedAt?_grown (hfresh : ∀ e ∈ new, e.consumedAt = none) (h : Handle) :
    (a.grown new n).consumedAt? h = a.consumedAt? h := by
  -- before it is added, a new handle has no consumer either
  rcases Nat.lt_or_ge h.index a.entries.length with hlt | hge
  · simp only [consumedAt?, entry?, grown, List.getElem?_append_left hlt]
  · have hnone : a.consumedAt? h = none := by
      simp [consumedAt?, entry?, List.getElem?_eq_none hge]
    rw [hnone]
    simp only [consumedAt?, entry?, grown, List.getElem?_append_right hge, Option.bind_eq_none_iff]
    intro e he
    exact hfresh e (List.mem_of_getElem? he)

theorem checkLive_of_consumedAt? (ty : Ty) (hconsumed : a.consumedAt? h = some opIndex) :
    a.checkLive h ty = .error (.consumed h opIndex) := by
  obtain ⟨e, hentry, hspent⟩ := Option.bind_eq_some_iff.mp hconsumed
  simp [checkLive, hentry, hspent]

theorem length_spend (a : Arena) (spent : Option (Handle × Nat)) :
    (a.spend spent).entries.length = a.entries.length := by
  cases spent with
  | none => rfl
  | some p => exact a.length_markConsumed p.1 p.2

theorem map_storage?_next (a : Arena) (new : List HandleEntry) (n : Nat) :
    (a.next new.length).map (a.grown new n).storage? =
      (new.map HandleEntry.storage).map some := by
  apply List.ext_getElem
  · simp [next]
  · intro i hi hi'
    have hnew : i < new.length := by simpa using hi'
    simp [next, Arena.storage?, entry?, grown, hnew]

/-- What a call does to an arena, told from its record: it consumes a live handle or none, and adds
entries for the handles that it returns. -/
structure Advances (a : Arena) (r : HandleRecord) (a' : Arena) (new : List HandleEntry) : Prop where
  arena : a' = (a.spend r.spent?).grown new r.stores.toNat
  issued : r.issued = a.next new.length
  fresh : ∀ e ∈ new, e.consumedAt = none
  live : ∀ h opIndex, r.spent? = some (h, opIndex) →
    ∃ e, a.entry? h = some e ∧ e.consumedAt = none
  storages : ∀ h ty opIndex handles, r.call.target? = some (h, ty, opIndex) →
    r.result = .ok handles →
      ∃ e, a.entry? h = some e ∧ new.map HandleEntry.storage = r.call.storages a e

theorem advances_of_spent {ty : Ty} {source : HandleEntry}
    (htarget : r.call.target? = some (h, ty, opIndex)) (hspent : r.spent? = some (h, opIndex))
    (hlive : a.checkLive h ty = .ok source) (hissued : r.issued = a.next new.length)
    (hfresh : ∀ e ∈ new, e.consumedAt = none)
    (hstorages : ∀ handles, r.result = .ok handles →
      new.map HandleEntry.storage = r.call.storages a source) :
    a.Advances r ((a.markConsumed h opIndex).grown new r.stores.toNat) new := by
  obtain ⟨hentry, hconsumed, -⟩ := checkLive_eq_ok_iff.mp hlive
  refine ⟨by rw [hspent, spend], hissued, hfresh, ?_, ?_⟩
  · rw [hspent]
    rintro _ _ ⟨⟩
    exact ⟨source, hentry, hconsumed⟩
  · rw [htarget]
    rintro _ _ _ handles ⟨⟩ hresult
    exact ⟨source, hentry, hstorages handles hresult⟩

theorem exists_advances_of_did {call : HandleCall} {w w' : Workspace}
    {result : Except ArenaError (List Handle)} (hdid : call.Did w result w') :
    ∃ new, w.arena.Advances ⟨call, result⟩ w'.arena new := by
  cases hdid with
  | @bound value ty storage hcall =>
      subst hcall
      exact ⟨[{ value, ty, storage }], rfl, rfl, by simp, by rintro _ _ ⟨⟩, by rintro _ _ _ _ ⟨⟩⟩
  | @refused h ty opIndex e htarget hlive =>
      -- a handle is never refused on behalf of the builder
      have hspent : HandleRecord.spent? ⟨call, .error e⟩ = none := by
        cases e with
        | builder cause => exact absurd hlive (checkLive_ne_builder _ h ty cause)
        | _ => rfl
      refine ⟨[], ?_, rfl, by simp, by simp [hspent], by simp⟩
      rw [hspent, HandleRecord.stores_error]
      exact (grown_nil _).symm
  | @burnt h ty opIndex source cause htarget hlive _ _ =>
      have hspent : HandleRecord.spent? ⟨call, .error (.builder cause)⟩ = some (h, opIndex) := by
        simp [HandleRecord.spent?, htarget]
      have hadvances := advances_of_spent htarget hspent hlive rfl (List.forall_mem_nil _) (by simp)
      rw [HandleRecord.stores_error, Bool.toNat_false, grown_nil] at hadvances
      exact ⟨[], hadvances⟩
  | @replaced h ty opIndex source b new htarget hlive hstorages hnew =>
      have hspent : HandleRecord.spent? ⟨call, .ok (w.arena.next new.length)⟩ =
          some (h, opIndex) := by
        simp [HandleRecord.spent?, htarget]
      have hslots : call.slots =
          (HandleRecord.stores ⟨call, .ok (w.arena.next new.length)⟩).toNat := by
        cases call <;> rfl
      rw [hslots]
      exact ⟨new, advances_of_spent htarget hspent hlive rfl (fun e he => (hnew e he).2)
        fun _ _ => hstorages⟩

theorem exists_advances (a : Arena) (ev : HandleEvent) :
    ∃ new, a.Advances (a.perform ev).1 (a.perform ev).2 new :=
  exists_advances_of_did (ev.call.did_action ⟨ev.builder, a⟩)

theorem Advances.handles_eq (h : a.Advances r a' new) : a'.handles = a.handles ++ r.issued := by
  have hlength : a'.entries.length = a.entries.length + new.length := by
    rw [h.arena, grown, List.length_append, length_spend]
  rw [h.issued, handles, handles, next, hlength, ← List.map_append, List.range_eq_range',
    List.range_eq_range', ← List.range'_append_1, Nat.zero_add]

theorem Advances.slots_eq (h : a.Advances r a' new) : a'.slots = a.slots + r.stores.toNat := by
  rw [h.arena]
  cases r.spent? with
  | none => rfl
  | some p => rfl

theorem Advances.consumedAt?_eq_some_iff (h : a.Advances r a' new) :
    a'.consumedAt? k = some opIndex ↔
      a.consumedAt? k = some opIndex ∨ r.spent? = some (k, opIndex) := by
  rw [h.arena, consumedAt?_grown h.fresh]
  cases hspent : r.spent? with
  | none => simp [spend]
  | some p =>
      obtain ⟨spent, opIndex'⟩ := p
      obtain ⟨source, hsource, hlive⟩ := h.live spent opIndex' hspent
      simp only [spend, consumedAt?_markConsumed hsource]
      by_cases heq : k = spent
      · subst heq
        simp [consumedAt?, hsource, hlive]
      · simp [heq, Ne.symm heq]

theorem Advances.map_storage?_issued (h : a.Advances r a' new) :
    r.issued.map a'.storage? = (new.map HandleEntry.storage).map some := by
  have hnext : a.next new.length = (a.spend r.spent?).next new.length := by
    rw [next, next, length_spend]
  rw [h.issued, hnext, h.arena]
  exact map_storage?_next _ new _

theorem Advances.map_storage?_stored (h : a.Advances r a' new) (hstores : r.stores = true) :
    r.stored.map a'.storage? = [some (.temp a.slots)] := by
  rw [HandleRecord.stored, if_pos hstores, h.map_storage?_issued]
  obtain ⟨call, result⟩ := r
  cases result with
  | error e => simp [HandleRecord.stores_error] at hstores
  | ok handles =>
      cases call with
      | storeTemp source ty opIndex =>
          obtain ⟨e, -, hstorages⟩ := h.storages source ty opIndex handles rfl rfl
          rw [hstorages]
          rfl
      | _ => cases hstores

theorem Advances.storage?_of_mem_issued {ty : Ty} {handles : List Handle}
    (hadvances : a.Advances r a' new)
    (hcall : r.call = .duplicate h ty opIndex ∨ r.call = .rename h ty opIndex)
    (hresult : r.result = .ok handles) (hmem : k ∈ handles) : a'.storage? k = a.storage? h := by
  have htarget : r.call.target? = some (h, ty, opIndex) := by
    rcases hcall with hcall | hcall <;> rw [hcall] <;> rfl
  obtain ⟨e, hentry, hstorages⟩ := hadvances.storages h ty opIndex handles htarget hresult
  have hissued : k ∈ r.issued := by simpa [HandleRecord.issued, hresult] using hmem
  have hstorage : a'.storage? k ∈ (new.map HandleEntry.storage).map some :=
    hadvances.map_storage?_issued ▸ List.mem_map_of_mem hissued
  rw [hstorages] at hstorage
  rcases hcall with hcall | hcall <;>
    simpa [hcall, HandleCall.storages, Arena.storage?, hentry] using hstorage

/-- Nothing of the old entries has changed, but that live ones may have been consumed. -/
def Keeps (a a' : Arena) : Prop :=
  ∀ h e, a.entry? h = some e → ∃ e', a'.entry? h = some e' ∧ e'.value = e.value ∧ e'.ty = e.ty ∧
    e'.storage = e.storage ∧ ∀ opIndex, e.consumedAt = some opIndex → e'.consumedAt = some opIndex

theorem Keeps.refl (a : Arena) : a.Keeps a :=
  fun _ e hentry => ⟨e, hentry, rfl, rfl, rfl, fun _ => id⟩

theorem Keeps.trans {a'' : Arena} (h : a.Keeps a') (h' : a'.Keeps a'') : a.Keeps a'' := by
  intro k e hentry
  obtain ⟨e', hentry', hvalue, hty, hstorage, hconsumed⟩ := h k e hentry
  obtain ⟨e'', hentry'', hvalue', hty', hstorage', hconsumed'⟩ := h' k e' hentry'
  exact ⟨e'', hentry'', hvalue'.trans hvalue, hty'.trans hty, hstorage'.trans hstorage,
    fun opIndex hspent => hconsumed' opIndex (hconsumed opIndex hspent)⟩

theorem Keeps.storage? (hkeeps : a.Keeps a') {storage : Storage}
    (h : a.storage? k = some storage) : a'.storage? k = some storage := by
  obtain ⟨e, hentry, rfl⟩ := Option.map_eq_some_iff.mp h
  obtain ⟨e', hentry', -, -, hstorage, -⟩ := hkeeps k e hentry
  simp [Arena.storage?, hentry', hstorage]

theorem Keeps.map_storage? (hkeeps : a.Keeps a') {handles : List Handle} {storages : List Storage}
    (h : handles.map a.storage? = storages.map some) :
    handles.map a'.storage? = storages.map some := by
  rw [← h]
  apply List.map_congr_left
  intro k hk
  have hmem : a.storage? k ∈ storages.map some := h ▸ List.mem_map_of_mem hk
  obtain ⟨storage, -, hstorage⟩ := List.mem_map.mp hmem
  rw [← hstorage]
  exact hkeeps.storage? hstorage.symm

theorem Advances.keeps (h : a.Advances r a' new) : a.Keeps a' := by
  intro k e hentry
  rw [h.arena]
  cases hspent : r.spent? with
  | none => exact ⟨e, entry?_grown_of_some hentry, rfl, rfl, rfl, fun _ => id⟩
  | some p =>
      obtain ⟨spent, opIndex⟩ := p
      obtain ⟨source, hsource, hlive⟩ := h.live spent opIndex hspent
      simp only [spend]
      by_cases heq : k = spent
      · subst heq
        obtain rfl : source = e := Option.some.inj (hsource.symm.trans hentry)
        refine ⟨{ source with consumedAt := some opIndex }, entry?_grown_of_some ?_, rfl, rfl, rfl,
          by simp [hlive]⟩
        simp [entry?_markConsumed, hentry]
      · refine ⟨e, entry?_grown_of_some ?_, rfl, rfl, rfl, fun _ => id⟩
        rw [entry?_markConsumed, if_neg heq, hentry]

theorem keeps_after (a : Arena) (evs : List HandleEvent) : a.Keeps (a.after evs) := by
  induction evs generalizing a with
  | nil => exact .refl a
  | cons ev rest ih =>
      obtain ⟨new, hadvances⟩ := a.exists_advances ev
      exact hadvances.keeps.trans (ih (a.perform ev).2)

/-- The books of an arena agree with the records of its calls. -/
structure Accounted (a : Arena) (log : List HandleRecord) : Prop where
  issued : log.flatMap HandleRecord.issued = a.handles
  once : ((log.filterMap HandleRecord.spent?).map Prod.fst).Nodup
  consumed : ∀ h opIndex, a.consumedAt? h = some opIndex ↔
    (h, opIndex) ∈ log.filterMap HandleRecord.spent?
  slots : a.slots = log.countP HandleRecord.stores
  stored : (log.flatMap HandleRecord.stored).map a.storage? =
    ((List.range a.slots).map Storage.temp).map some

theorem accounted_nil : Accounted {} [] :=
  ⟨rfl, List.nodup_nil, by simp [consumedAt?, entry?], rfl, rfl⟩

theorem Accounted.mem_spent_iff (hacc : a.Accounted log) :
    h ∈ (log.filterMap HandleRecord.spent?).map Prod.fst ↔ (a.consumedAt? h).isSome := by
  rw [List.mem_map, Option.isSome_iff_exists]
  constructor
  · rintro ⟨⟨h, opIndex⟩, hmem, rfl⟩
    exact ⟨opIndex, (hacc.consumed h opIndex).mpr hmem⟩
  · rintro ⟨opIndex, hconsumed⟩
    exact ⟨(h, opIndex), (hacc.consumed h opIndex).mp hconsumed, rfl⟩

/-- A call is entered in the books. -/
theorem Accounted.advances (hacc : a.Accounted log) (h : a.Advances r a' new) :
    a'.Accounted (log ++ [r]) := by
  constructor
  · rw [List.flatMap_append, hacc.issued, h.handles_eq, List.flatMap_singleton]
  · rw [List.filterMap_append, List.map_append]
    cases hspent : r.spent? with
    | none => simpa [hspent] using hacc.once
    | some p =>
        -- the handle was live until this call, so no earlier call had consumed it
        obtain ⟨e, hentry, hlive⟩ := h.live p.1 p.2 hspent
        have hnew : p.1 ∉ (log.filterMap HandleRecord.spent?).map Prod.fst := by
          simp [hacc.mem_spent_iff, consumedAt?, hentry, hlive]
        have hnodup := hacc.once.concat hnew
        rw [List.concat_eq_append] at hnodup
        simpa only [List.filterMap_cons, hspent, List.filterMap_nil, List.map_cons, List.map_nil]
          using hnodup
  · intro k opIndex
    rw [h.consumedAt?_eq_some_iff, hacc.consumed, List.filterMap_append, List.mem_append]
    simp
  · rw [h.slots_eq, hacc.slots, List.countP_append, List.countP_singleton]
    cases r.stores <;> rfl
  · rw [List.flatMap_append, List.map_append, List.flatMap_singleton, h.slots_eq,
      h.keeps.map_storage? hacc.stored]
    cases hstores : r.stores with
    | false => simp [HandleRecord.stored, hstores]
    | true =>
        rw [h.map_storage?_stored hstores, Bool.toNat_true, List.range_succ, List.map_append,
          List.map_append]
        rfl

theorem Accounted.after (hacc : a.Accounted log) (evs : List HandleEvent) :
    (a.after evs).Accounted (log ++ a.records evs) := by
  induction evs generalizing a log with
  | nil => simpa [Arena.after, records] using hacc
  | cons ev rest ih =>
      obtain ⟨new, hadvances⟩ := a.exists_advances ev
      have hrest := ih (hacc.advances hadvances)
      rwa [List.append_assoc] at hrest

theorem accounted_after (evs : List HandleEvent) :
    (Arena.after {} evs).Accounted (records {} evs) :=
  accounted_nil.after evs

theorem Accounted.live_eq (hacc : a.Accounted log) :
    a.live = (log.flatMap HandleRecord.issued).filter
      fun h => h ∉ (log.filterMap HandleRecord.spent?).map Prod.fst := by
  rw [hacc.issued]
  apply List.filter_congr
  rintro _ hmem
  obtain ⟨index, hindex, rfl⟩ := List.mem_map.mp hmem
  obtain ⟨e, hentry⟩ : ∃ e, a.entry? ⟨index⟩ = some e :=
    ⟨_, List.getElem?_eq_getElem (List.mem_range.mp hindex)⟩
  cases hconsumed : e.consumedAt <;>
    simp [isLive, hacc.mem_spent_iff, consumedAt?, hentry, hconsumed]

theorem pairwise_handles (a : Arena) : a.handles.Pairwise fun h h' => h.index < h'.index := by
  rw [handles, List.pairwise_map]
  exact List.pairwise_lt_range

/-- What holds of handles after any calls to an arena that was empty, and of the calls that
follow. -/
structure UsesOnce (evs : List HandleEvent) : Prop where
  accounted : (Arena.after {} evs).Accounted (records {} evs)
  increasing : ((records {} evs).flatMap HandleRecord.issued).Pairwise
    fun h h' => h.index < h'.index
  live : (Arena.after {} evs).live = ((records {} evs).flatMap HandleRecord.issued).filter
    fun h => h ∉ ((records {} evs).filterMap HandleRecord.spent?).map Prod.fst
  kept : ∀ more, (Arena.after {} evs).Keeps (Arena.after {} (evs ++ more))
  refused : ∀ ev h ty opIndex consumer, ev.call.target? = some (h, ty, opIndex) →
    (Arena.after {} evs).consumedAt? h = some consumer →
      ((Arena.after {} evs).perform ev).1.result = .error (.consumed h consumer)
  copied : ∀ ev h ty opIndex handles,
    ev.call = .duplicate h ty opIndex ∨ ev.call = .rename h ty opIndex →
      ((Arena.after {} evs).perform ev).1.result = .ok handles →
        ∀ k ∈ handles, ((Arena.after {} evs).perform ev).2.storage? k =
          (Arena.after {} evs).storage? h

/-- Handles are used at most once over any history of calls. -/
theorem handles_used_once (evs : List HandleEvent) : UsesOnce evs := by
  have hacc := accounted_after evs
  refine ⟨hacc, ?_, hacc.live_eq, ?_, ?_, ?_⟩
  · rw [hacc.issued]
    exact pairwise_handles _
  · intro more
    rw [after_append]
    exact keeps_after _ more
  · intro ev h ty opIndex consumer htarget hconsumed
    exact (ev.call.did_action _).eq_error htarget (checkLive_of_consumedAt? ty hconsumed)
  · intro ev h ty opIndex handles hcall hresult k hmem
    obtain ⟨new, hadvances⟩ := (Arena.after {} evs).exists_advances ev
    exact hadvances.storage?_of_mem_issued hcall hresult hmem

/-- A handle is copied, one copy is stored, and the other is lost where no block is open. -/
def lossyHistory : List HandleEvent :=
  let opened := Builder.ofSignature ⟨"f", [.felt252], []⟩
  let closed := opened.after [.ret []]
  [⟨.bind ⟨0⟩ .felt252 (.param 0), opened⟩, ⟨.duplicate ⟨0⟩ .felt252 1, opened⟩,
    ⟨.storeTemp ⟨1⟩ .felt252 2, opened⟩, ⟨.rename ⟨2⟩ .felt252 3, closed⟩]

theorem lossyHistory_used_once :
    (records {} lossyHistory).flatMap HandleRecord.issued = [⟨0⟩, ⟨1⟩, ⟨2⟩, ⟨3⟩] ∧
      (records {} lossyHistory).filterMap HandleRecord.spent? = [(⟨0⟩, 1), (⟨1⟩, 2), (⟨2⟩, 3)] ∧
      (Arena.after {} lossyHistory).live = [⟨3⟩] ∧
      ∀ ev ty opIndex, ev.call.target? = some (⟨2⟩, ty, opIndex) →
        ((Arena.after {} lossyHistory).perform ev).1.result = .error (.consumed ⟨2⟩ 3) := by
  have hissued : (records {} lossyHistory).flatMap HandleRecord.issued =
      [⟨0⟩, ⟨1⟩, ⟨2⟩, ⟨3⟩] := by decide
  have hspent : (records {} lossyHistory).filterMap HandleRecord.spent? =
      [(⟨0⟩, 1), (⟨1⟩, 2), (⟨2⟩, 3)] := by decide
  have honce := handles_used_once lossyHistory
  refine ⟨hissued, hspent, ?_, ?_⟩
  · rw [honce.live, hissued, hspent]
    decide
  · intro ev ty opIndex htarget
    refine honce.refused ev ⟨2⟩ ty opIndex 3 htarget ?_
    rw [honce.accounted.consumed, hspent]
    decide

end Arena

end FieldSSA
