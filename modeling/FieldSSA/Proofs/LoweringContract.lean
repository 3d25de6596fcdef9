import Mathlib
import FieldSSA.Libfunc.Extra
import FieldSSA.Proofs.Acceptance
import FieldSSA.Proofs.LowerCalls

namespace FieldSSA

theorem map_zip_zip {α β γ : Type} {xs : List α} {ys : List β} {zs : List γ}
    (hlen : xs.length = ys.length) :
    ((xs.zip ys).zip zs).map (fun p => p.1.1) = xs.take zs.length := by
  induction xs generalizing ys zs with
  | nil => simp
  | cons x xs ih =>
      cases ys with
      | nil => simp at hlen
      | cons y ys =>
          cases zs with
          | nil => simp
          | cons z zs => simpa using ih (by simpa using hlen)

namespace Build

variable {b b' : Builder}

/-- Where an instruction was added, its results are the last values of the table. -/
theorem hasTypes_of_push {α : Type} {i : Instruction} {types : List Ty} {out r : α}
    (h : (push i types >>= fun _ => pure out : Build α) b = (.ok r, b')) :
    r = out ∧ b'.draft.HasTypes (b.fresh types) types := by
  have hsame := moves_eq_openBlock b
  rcases hopen : openBlock b with ⟨e | id, b₁⟩ <;> rw [hopen] at hsame
  · have hpush : push i types b = (.error e, b₁) := bind_apply_of_error hopen _
    rw [bind_apply_of_error hpush] at h
    cases h
  · obtain rfl : b = b₁ := hsame
    have hpush : push i types b = (.ok (), b.append id i types) := bind_apply_of_ok hopen _
    rw [bind_apply_of_ok hpush] at h
    cases h
    exact ⟨rfl, Builder.hasTypes_numbered rfl⟩

theorem hasTypes_of_call {callee : Intrinsic} {args outputs : List ValueId}
    (h : call callee args b = (.ok outputs, b')) : b'.draft.HasTypes outputs callee.results := by
  obtain ⟨rfl, htypes⟩ := hasTypes_of_push (i := .call callee args (b.fresh callee.results)) h
  exact htypes

theorem hasTypes_of_const {imm : Scalar} {v : ValueId} (h : const imm b = (.ok v, b')) :
    b'.draft.HasTypes [v] [imm.ty] := by
  obtain ⟨rfl, htypes⟩ := hasTypes_of_push (i := .const ⟨b.valueTypes.length⟩ imm) h
  exact htypes

theorem hasTypes_of_cmp {pred : Predicate} {lhs rhs v : ValueId}
    (h : cmp pred lhs rhs b = (.ok v, b')) : b'.draft.HasTypes [v] [.bool] := by
  obtain ⟨rfl, htypes⟩ := hasTypes_of_push (i := .cmp ⟨b.valueTypes.length⟩ pred lhs rhs) h
  exact htypes

theorem apply_of_singleton {m : Build ValueId} {outputs : List ValueId}
    (h : (m >>= fun v => pure [v] : Build (List ValueId)) b = (.ok outputs, b')) :
    ∃ v, m b = (.ok v, b') ∧ outputs = [v] := by
  rcases hm : m b with ⟨e | v, b₁⟩
  · rw [bind_apply_of_error hm] at h
    cases h
  · rw [bind_apply_of_ok hm] at h
    cases h
    exact ⟨v, rfl, rfl⟩

end Build

namespace Libfunc

/-- Whenever its routine succeeds on as many values as it has parameters, a libfunc gives a value
for each declared result, and the value has the declared type. -/
def KeepsContract (l : Libfunc) : Prop :=
  ∀ args b outputs b', args.length = l.params.length → l.lower args b = (.ok outputs, b') →
    b'.draft.HasTypes outputs l.results

end Libfunc

theorem Recipe.keepsContract_libfunc (name : String) (r : Recipe) :
    (r.libfunc name).KeepsContract := by
  intro args b outputs b' hlen h
  rw [libfunc_params] at hlen
  cases r.shaped hlen rfl with
  | constant imm =>
      obtain ⟨v, hv, rfl⟩ := Build.apply_of_singleton h
      exact Build.hasTypes_of_const hv
  | helper callee => exact Build.hasTypes_of_call h
  | comparison ty pred lhs rhs =>
      obtain ⟨v, hv, rfl⟩ := Build.apply_of_singleton h
      exact Build.hasTypes_of_cmp hv
  | zeroTest ty v =>
      rcases hzero : Build.const (.zero ty) b with ⟨e | zero, b₁⟩
      · have herror : (libfunc name (.zeroTest ty)).lower [v] b = (.error e, b₁) :=
          bind_apply_of_error hzero _
        cases herror.symm.trans h
      · obtain ⟨u, hu, rfl⟩ := Build.apply_of_singleton ((bind_apply_of_ok hzero _).symm.trans h)
        exact Build.hasTypes_of_cmp hu

theorem Registry.keepsContract_default {name : String} {l : Libfunc}
    (h : Registry.default.get? name = some l) : l.KeepsContract := by
  rw [Recipe.get?_default] at h
  obtain ⟨r, -, rfl⟩ := Option.map_eq_some_iff.mp h
  exact Recipe.keepsContract_libfunc name r

namespace LowerState

variable {s s' : LowerState} {v w : Var} {e e' : HandleEntry}

theorem env_introduced_self : (s.introduced v e).env v = some e := by
  simp [env, introduced]

theorem env_introduced_of_env (h : s.env w = some e') (hne : w ≠ v) :
    (s.introduced v e).env w = some e' := by
  obtain ⟨handle, hw, he⟩ := Option.bind_eq_some_iff.mp h
  have hlt := (List.getElem?_eq_some_iff.mp he).1
  have hkey : (w == v) = false := beq_eq_false_iff_ne.mpr hne
  simp [env, introduced, List.lookup_cons, hkey, hw, List.getElem?_append_left hlt, he]

theorem isSome_lookup_of_env (h : s.env v = some e) : (s.scope.lookup v).isSome = true := by
  obtain ⟨handle, hv, -⟩ := Option.bind_eq_some_iff.mp h
  simp [hv]

theorem env_eq_none_of_not_mem (h : v ∉ s.scope.map Prod.fst) : s.env v = none := by
  cases hv : s.scope.lookup v with
  | none => simp [env, hv]
  | some handle => exact absurd (List.mem_map_of_mem (mem_of_lookup_eq_some hv)) h

/-- Variables came into scope, each with an entry of its own, and the entries in scope before
stayed. -/
structure Binds (defs : List ((Var × Ty) × ValueId)) (storage : Storage) (s s' : LowerState) :
    Prop where
  builder : s'.workspace.builder = s.workspace.builder
  scope : s'.scope.map Prod.fst = (defs.map fun d => d.1.1).reverse ++ s.scope.map Prod.fst
  entries : ∀ d ∈ defs, s'.env d.1.1 = some ⟨d.2, d.1.2, storage, none⟩
  kept : ∀ w e, s.env w = some e → s'.env w = some e

theorem Binds.refl (storage : Storage) (s : LowerState) : Binds [] storage s s :=
  ⟨rfl, rfl, by simp, fun _ _ h => h⟩

theorem Binds.introduced {defs : List ((Var × Ty) × ValueId)} {storage : Storage} {ty : Ty}
    {x : ValueId} (hv : s.scope.lookup v = none)
    (h : Binds defs storage (s.introduced v ⟨x, ty, storage, none⟩) s') :
    Binds (((v, ty), x) :: defs) storage s s' := by
  refine ⟨h.builder, ?_, ?_, ?_⟩
  · rw [h.scope]
    simp [LowerState.introduced]
  · intro d hd
    rcases List.mem_cons.mp hd with rfl | hd
    · exact h.kept _ _ env_introduced_self
    · exact h.entries d hd
  · intro w e he
    -- `v` was not in scope, so it hides no variable that was
    have hne : w ≠ v := by
      rintro rfl
      simpa [hv] using isSome_lookup_of_env he
    exact h.kept w e (env_introduced_of_env he hne)

end LowerState

namespace Lower

open LowerState

variable {α β : Type} {c : LowerContext} {s s' : LowerState} {opIndex : Nat}

theorem exec_ops_append (opIndex : Nat) (os os' : List Op) :
    (ops opIndex (os ++ os')).exec c s =
      (ops opIndex os).exec c s >>= fun p => (ops (opIndex + os.length) os').exec c p.2 := by
  induction os generalizing opIndex s with
  | nil => rfl
  | cons o rest ih =>
      have hplace : opIndex + (o :: rest).length = opIndex + 1 + rest.length := by
        rw [List.length_cons]
        omega
      rw [List.cons_append, ops, ops, exec_bind, exec_bind, bind_assoc]
      exact congrArg _ (funext fun p => by rw [ih, hplace])

theorem scope_of_consume {v : Var} {ty : Ty} {x : ValueId}
    (h : (consume opIndex v ty).exec c s = .ok (x, s')) : s'.scope = s.scope := by
  rw [consume, exec_bind, exec_lookup] at h
  cases hv : s.scope.lookup v with
  | none => simp [hv] at h
  | some handle =>
      rw [hv, ok_bind, exec_bind] at h
      obtain ⟨⟨e, s₁⟩, hrun, hend⟩ := bind_eq_ok_iff.mp h
      obtain ⟨w, -, rfl⟩ := exists_of_exec_working hrun
      cases hend
      rfl

theorem consumeAll_keeps {args : List (Var × Ty)} {values : List ValueId}
    (h : (consumeAll opIndex args).exec c s = .ok (values, s')) :
    values.length = args.length ∧ s'.scope = s.scope := by
  induction args generalizing s values with
  | nil =>
      cases h
      exact ⟨rfl, rfl⟩
  | cons p rest ih =>
      rw [consumeAll, List.mapM_cons, exec_bind] at h
      obtain ⟨⟨x, s₁⟩, hfirst, h⟩ := bind_eq_ok_iff.mp h
      rw [exec_bind] at h
      obtain ⟨⟨xs, s₂⟩, hrest, h⟩ := bind_eq_ok_iff.mp h
      cases h
      obtain ⟨hlen, hscope⟩ := ih hrest
      exact ⟨congrArg Nat.succ hlen, hscope.trans (scope_of_consume hfirst)⟩

theorem binds_of_defineAll {storage : Storage} {position : Nat}
    {defs : List ((Var × Ty) × ValueId)}
    (h : (defineAll opIndex (fun _ => storage) position defs).exec c s = .ok ((), s')) :
    Binds defs storage s s' := by
  induction defs generalizing position s with
  | nil =>
      cases h
      exact .refl storage _
  | cons d rest ih =>
      obtain ⟨⟨v, ty⟩, x⟩ := d
      rw [defineAll, exec_bind, exec_bind_handle, ok_bind, exec_bind, exec_define] at h
      cases hv : s.scope.lookup v with
      | some handle => simp [hv] at h
      | none =>
          simp only [hv, Option.isSome_none, Bool.false_eq_true, if_false, ok_bind] at h
          exact .introduced hv (ih h)

/-- What a call has done when it succeeds: the arguments were consumed, the routine was run on
their values, and the outputs were bound as far as they are paired with results. -/
theorem call_cases {libfunc : String} {args results : List Var}
    (h : (call opIndex libfunc args results).exec c s = .ok ((), s')) :
    ∃ l values read outputs, c.registry.get? libfunc = some l ∧
      l.params.length = args.length ∧ l.results.length = results.length ∧
      (consumeAll opIndex (args.zip l.params)).exec c s = .ok (values, read) ∧
      l.lower values read.workspace.builder = (.ok outputs, s'.workspace.builder) ∧
      Binds ((results.zip l.results).zip outputs) .implicit
        (read.built s'.workspace.builder) s' := by
  rw [call, exec_bind, exec_read, ok_bind] at h
  cases hget : c.registry.get? libfunc with
  | none => simp [hget] at h
  | some l =>
      simp only [hget] at h
      by_cases hparams : l.params.length = args.length
      case neg => simp [checkArity, hparams] at h
      by_cases hresults : l.results.length = results.length
      case neg => simp [checkArity, hparams, hresults] at h
      simp only [checkArity, hparams, hresults, ne_eq, not_true_eq_false, if_false, exec_bind,
        exec_pure, ok_bind] at h
      obtain ⟨⟨values, read⟩, hread, h⟩ := bind_eq_ok_iff.mp h
      obtain ⟨⟨outputs, s₁⟩, hbuild, h⟩ := bind_eq_ok_iff.mp h
      have hbinds := binds_of_defineAll h
      -- binding keeps the builder, so the call leaves the one that the routine left
      obtain ⟨b, hrun, rfl⟩ := exists_of_exec_build hbuild
      obtain rfl : s'.workspace.builder = b := hbinds.builder
      exact ⟨l, values, read, outputs, rfl, hparams, hresults, hread, hrun, hbinds⟩

theorem call_of_op {libfunc : String} {args results : List Var}
    (h : (op opIndex (.call libfunc args results)).exec c s = .ok ((), s')) :
    (call opIndex libfunc args results).exec c s = .ok ((), s') := by
  rw [op, exec_bind, exec_builder, ok_bind] at h
  cases hcurrent : s.workspace.builder.current with
  | none => simp [hcurrent, Op.isLabel] at h
  | some id => simpa [hcurrent, Op.isLabel] using h

end Lower

namespace Source

variable {s : Source} {registry : Registry} {c : Config}

/-- The state in which lowering comes to an operation. -/
def stateBefore (s : Source) (registry : Registry) (i : Nat) : Except EmitError LowerState :=
  Prod.snd <$> (do
    Lower.declareLabels 0 s.ops
    Lower.bindEntry s.paramVars
    Lower.ops 0 (s.ops.take i)).exec ⟨s.name, registry⟩ (LowerState.initial s)

/-- Lowering has done a call of a libfunc: it came to the call in one state and left it in
another, and the routine of the libfunc, run on the values of the arguments, gave outputs. -/
structure CallLowered (s : Source) (registry : Registry) (i : Nat) (l : Libfunc)
    (args : List Var) (outputs : List ValueId) (before after : LowerState) : Prop where
  before_eq : s.stateBefore registry i = .ok before
  after_eq : s.stateBefore registry (i + 1) = .ok after
  ran : ∃ values read,
    (Lower.consumeAll i (args.zip l.params)).exec ⟨s.name, registry⟩ before = .ok (values, read) ∧
      l.lower values read.workspace.builder = (.ok outputs, after.workspace.builder)

theorem exists_states_of_emit {f : Function} (hc : c.validate = .ok ())
    (h : s.emit registry c = .ok f) {i : Nat} {o : Op} (ho : s.ops[i]? = some o) :
    ∃ before after, s.stateBefore registry i = .ok before ∧
      s.stateBefore registry (i + 1) = .ok after ∧
      (Lower.op i o).exec ⟨s.name, registry⟩ before = .ok ((), after) := by
  rw [emit_eq hc] at h
  obtain ⟨p, hbody, -⟩ := bind_eq_ok_iff.mp h
  rw [Lower.body, Lower.exec_bind] at hbody
  obtain ⟨⟨_, s₁⟩, hlabels, hbody⟩ := bind_eq_ok_iff.mp hbody
  rw [Lower.exec_bind] at hbody
  obtain ⟨⟨_, s₂⟩, hentry, hbody⟩ := bind_eq_ok_iff.mp hbody
  rw [Lower.exec_bind] at hbody
  obtain ⟨⟨_, s₃⟩, hops, -⟩ := bind_eq_ok_iff.mp hbody
  have hstate (j : Nat) : s.stateBefore registry j =
      Prod.snd <$> (Lower.ops 0 (s.ops.take j)).exec ⟨s.name, registry⟩ s₂ := by
    rw [stateBefore, Lower.exec_bind, hlabels, ok_bind, Lower.exec_bind, hentry, ok_bind]
  have hi : (s.ops.take i).length = i :=
    List.length_take_of_le (List.getElem?_eq_some_iff.mp ho).1.le
  -- the state after the operation is split off first, then the state before it
  rw [← List.take_append_drop (i + 1) s.ops, Lower.exec_ops_append] at hops
  obtain ⟨⟨_, after⟩, htake, -⟩ := bind_eq_ok_iff.mp hops
  have hafter : s.stateBefore registry (i + 1) = .ok after := by
    rw [hstate, htake]
    rfl
  rw [List.take_add_one, ho, Lower.exec_ops_append] at htake
  obtain ⟨⟨_, before⟩, hbefore, hop⟩ := bind_eq_ok_iff.mp htake
  rw [hi, Nat.zero_add, Option.toList_some, Lower.ops, Lower.exec_bind] at hop
  obtain ⟨⟨_, t⟩, hstep, hend⟩ := bind_eq_ok_iff.mp hop
  cases hend
  refine ⟨before, t, ?_, hafter, hstep⟩
  rw [hstate, hbefore]
  rfl

/-- Every call of a source that is emitted was lowered with as many arguments and results as the
libfunc declares. Its outputs were bound in position under the declared types, to as many of the
result variables as there are outputs. -/
theorem exists_callLowered_of_emit {f : Function} (hc : c.validate = .ok ())
    (h : s.emit registry c = .ok f) {i : Nat} {libfunc : String} {args results : List Var}
    (hop : s.ops[i]? = some (.call libfunc args results)) :
    ∃ l outputs before after, registry.get? libfunc = some l ∧
      s.CallLowered registry i l args outputs before after ∧
      args.length = l.params.length ∧ results.length = l.results.length ∧
      after.scope.map Prod.fst =
        (results.take outputs.length).reverse ++ before.scope.map Prod.fst ∧
      ∀ p ∈ (results.zip l.results).zip outputs,
        after.env p.1.1 = some ⟨p.2, p.1.2, .implicit, none⟩ := by
  obtain ⟨before, after, hbefore, hafter, hexec⟩ := exists_states_of_emit hc h hop
  obtain ⟨l, values, read, outputs, hget, hparams, hresults, hread, hrun, hbinds⟩ :=
    Lower.call_cases (Lower.call_of_op hexec)
  obtain ⟨-, hscope⟩ := Lower.consumeAll_keeps hread
  refine ⟨l, outputs, before, after, hget, ⟨hbefore, hafter, values, read, hread, hrun⟩,
    hparams.symm, hresults.symm, ?_, hbinds.entries⟩
  rw [hbinds.scope, map_zip_zip hresults.symm]
  exact congrArg (_ ++ List.map Prod.fst ·) hscope

theorem CallLowered.hasTypes {i : Nat} {l : Libfunc} {args : List Var} {outputs : List ValueId}
    {before after : LowerState} (h : s.CallLowered registry i l args outputs before after)
    (hlen : args.length = l.params.length) (hkeeps : l.KeepsContract) :
    after.workspace.builder.draft.HasTypes outputs l.results := by
  obtain ⟨values, read, hread, hrun⟩ := h.ran
  obtain ⟨hvalues, -⟩ := Lower.consumeAll_keeps hread
  exact hkeeps values read.workspace.builder outputs _ (by simp [hvalues, hlen]) hrun

/-- In a source that is emitted, every call was lowered, and its result variables are bound to the
outputs of the routine as far as these go, under the declared types. The number and the types of
the outputs are those that the routine gave: if the libfunc keeps what it declares, every result
variable is bound to a value of its declared type. -/
theorem emit_binds_call_outputs (s : Source) (registry : Registry) (c : Config)
    (hc : c.validate = .ok ()) {f : Function} (h : s.emit registry c = .ok f) {i : Nat}
    {libfunc : String} {args results : List Var}
    (hop : s.ops[i]? = some (.call libfunc args results)) :
    ∃ l outputs before after, registry.get? libfunc = some l ∧
      s.CallLowered registry i l args outputs before after ∧
      args.length = l.params.length ∧ results.length = l.results.length ∧
      after.scope.map Prod.fst =
        (results.take outputs.length).reverse ++ before.scope.map Prod.fst ∧
      (∀ p ∈ (results.zip l.results).zip outputs,
        after.env p.1.1 = some ⟨p.2, p.1.2, .implicit, none⟩) ∧
      (l.KeepsContract → after.workspace.builder.draft.HasTypes outputs l.results ∧
        List.Forall₂ (fun v ty => ∃ e, after.env v = some e ∧ e.ty = ty ∧
          after.workspace.builder.draft.HasType e.value ty) results l.results) := by
  obtain ⟨l, outputs, before, after, hget, hcall, hargs, hresults, hscope, hentries⟩ :=
    exists_callLowered_of_emit hc h hop
  refine ⟨l, outputs, before, after, hget, hcall, hargs, hresults, hscope, hentries, ?_⟩
  intro hkeeps
  have htypes := hcall.hasTypes hargs hkeeps
  refine ⟨htypes, List.forall₂_iff_get.mpr ⟨hresults, fun j hj hj' => ?_⟩⟩
  have hout : j < outputs.length := htypes.length_eq ▸ hj'
  have hmem : ((results[j], l.results[j]), outputs[j]) ∈ (results.zip l.results).zip outputs := by
    refine List.mem_of_getElem? (i := j) ?_
    simp [hj, hj', hout]
  exact ⟨_, hentries _ hmem, rfl, htypes.get hout hj'⟩

/-- The quotient and the remainder in the loop of Euclid's algorithm are bound to words. -/
theorem euclid_binds_call_outputs :
    ∃ f outputs before after, euclid.emit .default {} = .ok f ∧
      euclid.CallLowered .default 3 (.ofIntrinsic "u32_safe_divmod" .u32Divmod) [⟨2⟩, ⟨4⟩]
        outputs before after ∧
      after.workspace.builder.draft.HasTypes outputs [.u32, .u32] ∧
      List.Forall₂ (fun v ty => ∃ e, after.env v = some e ∧ e.ty = ty ∧
        after.workspace.builder.draft.HasType e.value ty) [⟨6⟩, ⟨7⟩] [.u32, .u32] := by
  obtain ⟨f, hf⟩ := exists_emit_of_wellFormed (c := {}) rfl euclid_wellFormed
  obtain ⟨l, outputs, before, after, hget, hcall, -, -, -, -, hkept⟩ :=
    emit_binds_call_outputs euclid .default {} rfl hf (i := 3) rfl
  obtain rfl : .ofIntrinsic "u32_safe_divmod" .u32Divmod = l := Option.some.inj hget
  obtain ⟨htypes, hbound⟩ := hkept (Registry.keepsContract_default hget)
  exact ⟨f, outputs, before, after, hf, hcall, htypes, hbound⟩

/-- A source whose calls ask for what their routines do not give: the first routine returns one
value for two results, the second a field element for a word. -/
def careless : Source :=
  ⟨"careless", [(⟨0⟩, .felt252), (⟨1⟩, .felt252)], [],
    [.call "short" [⟨0⟩] [⟨2⟩, ⟨3⟩], .call "lying" [⟨1⟩] [⟨4⟩], .ret []]⟩

/-- The registry with the two libfuncs that do not keep what they declare. -/
def carelessRegistry : Registry :=
  (Registry.default.insert .short).insert .lying

theorem careless_emitted :
    ∃ f, careless.emit carelessRegistry {} = .ok f ∧
      (∃ outputs before after,
        careless.CallLowered carelessRegistry 0 .short [⟨0⟩] outputs before after ∧
          Libfunc.short.results.length = 2 ∧ outputs.length = 1 ∧ after.env ⟨3⟩ = none) ∧
      ∃ output before after,
        careless.CallLowered carelessRegistry 1 .lying [⟨1⟩] [output] before after ∧
          Libfunc.lying.results = [.u32] ∧
          after.workspace.builder.draft.HasType output .felt252 := by
  obtain ⟨f, hf⟩ : ∃ f, careless.emit carelessRegistry {} = .ok f := ⟨_, by cbv⟩
  refine ⟨f, hf, ?_, ?_⟩
  · obtain ⟨l, outputs, before, after, hget, hcall, -, -, hscope, -⟩ :=
      exists_callLowered_of_emit rfl hf (i := 0) rfl
    obtain rfl : .short = l := Option.some.inj hget
    obtain ⟨values, read, -, hrun⟩ := hcall.ran
    have hlen : outputs.length = 1 := (Build.hasTypes_of_call hrun).length_eq
    have hbefore : before.scope.map Prod.fst = [⟨1⟩, ⟨0⟩] := by
      have hstart : (fun st => st.scope.map Prod.fst) <$> careless.stateBefore carelessRegistry 0 =
          .ok [⟨1⟩, ⟨0⟩] := by rfl
      rw [hcall.before_eq] at hstart
      exact Except.ok.inj hstart
    rw [hlen, hbefore] at hscope
    refine ⟨outputs, before, after, hcall, rfl, hlen, LowerState.env_eq_none_of_not_mem ?_⟩
    rw [hscope]
    decide
  · obtain ⟨l, outputs, before, after, hget, hcall, -⟩ :=
      exists_callLowered_of_emit rfl hf (i := 1) rfl
    obtain rfl : .lying = l := Option.some.inj hget
    obtain ⟨values, read, -, hrun⟩ := hcall.ran
    have htypes := Build.hasTypes_of_call hrun
    obtain ⟨output, rfl⟩ := List.length_eq_one_iff.mp htypes.length_eq
    exact ⟨output, before, after, hcall, rfl, (List.forall₂_cons.mp htypes).1⟩

end Source

end FieldSSA
