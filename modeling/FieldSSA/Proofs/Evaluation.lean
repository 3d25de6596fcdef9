import FieldSSA.Proofs.Code
import FieldSSA.Proofs.Runs
import FieldSSA.Proofs.TypeSafety

namespace FieldSSA

namespace Recipe

/-- The outputs of a recipe, or `none` where it fails. -/
def eval (data : List Scalar) : Recipe → Option (List Scalar)
  | constant imm => some [imm]
  | helper callee => (callee.compute data).toOption
  | comparison _ pred =>
      match data with
      | [a, b] => (pred.holds? a b).map fun outcome => [.bool outcome]
      | _ => none
  | zeroTest ty =>
      match data with
      | [a] => some [.bool (a == .zero ty)]
      | _ => none

end Recipe

theorem add_wraps_iff (a b : UInt32) : a + b < a ↔ UInt32.size ≤ a.toNat + b.toNat := by
  have ha := a.toNat_lt
  have hb := b.toNat_lt
  rw [UInt32.lt_iff_toNat_lt, UInt32.toNat_add]
  simp only [UInt32.size]
  omega

theorem felt_beq (a b : Felt) : (Scalar.felt a == Scalar.felt b) = (a == b) := by
  rw [Bool.eq_iff_iff]
  simp

theorem u32_beq (a b : UInt32) : (Scalar.u32 a == Scalar.u32 b) = decide (a = b) := by
  rw [Bool.eq_iff_iff]
  simp

section Libfuncs

variable {name : String} {r : Recipe} {data : List Scalar}

/-- The libfuncs of the direct execution compute what their recipes do. -/
theorem evalLibfunc_eq (hmem : (name, r) ∈ Recipe.builtin)
    (hdata : data.map Scalar.ty = r.params) :
    evalLibfunc name data = (r.eval data).elim (.error .divisionByZero) .ok := by
  simp only [Recipe.builtin, List.mem_cons, Prod.mk.injEq, List.not_mem_nil, or_false] at hmem
  rcases hmem with ⟨rfl, rfl⟩ | ⟨rfl, rfl⟩ | ⟨rfl, rfl⟩ | ⟨rfl, rfl⟩ | ⟨rfl, rfl⟩ | ⟨rfl, rfl⟩ |
    ⟨rfl, rfl⟩ | ⟨rfl, rfl⟩ | ⟨rfl, rfl⟩ | ⟨rfl, rfl⟩ | ⟨rfl, rfl⟩ | ⟨rfl, rfl⟩ | ⟨rfl, rfl⟩
  -- products, sums and differences of elements, and the test for zero
  · obtain ⟨x, y, rfl⟩ := Scalar.exists_felts hdata
    rfl
  · obtain ⟨x, y, rfl⟩ := Scalar.exists_felts hdata
    rfl
  · obtain ⟨x, y, rfl⟩ := Scalar.exists_felts hdata
    rfl
  · obtain ⟨a, rfl, ha⟩ := Scalar.exists_of_map_ty hdata
    obtain ⟨x, rfl⟩ := Scalar.exists_felt ha
    exact congrArg (fun outcome => Except.ok [Scalar.bool outcome]) (felt_beq x .zero).symm
  -- words: sums and differences that wrap, comparisons, the test for zero and division
  · obtain ⟨x, y, rfl⟩ := Scalar.exists_u32s hdata
    exact congrArg (fun outcome => Except.ok [Scalar.u32 (x + y), Scalar.bool outcome])
      (decide_eq_decide.mpr (add_wraps_iff x y))
  · obtain ⟨x, y, rfl⟩ := Scalar.exists_u32s hdata
    rfl
  · obtain ⟨x, y, rfl⟩ := Scalar.exists_u32s hdata
    exact congrArg (fun outcome => Except.ok [Scalar.bool outcome]) (u32_beq x y).symm
  · obtain ⟨x, y, rfl⟩ := Scalar.exists_u32s hdata
    exact congrArg (fun outcome => Except.ok [Scalar.bool outcome])
      (decide_eq_decide.mpr UInt32.lt_iff_toNat_lt)
  · obtain ⟨x, y, rfl⟩ := Scalar.exists_u32s hdata
    exact congrArg (fun outcome => Except.ok [Scalar.bool outcome])
      (decide_eq_decide.mpr UInt32.le_iff_toNat_le)
  · obtain ⟨a, rfl, ha⟩ := Scalar.exists_of_map_ty hdata
    obtain ⟨x, rfl⟩ := Scalar.exists_u32 ha
    exact congrArg (fun outcome => Except.ok [Scalar.bool outcome]) (u32_beq x 0).symm
  · obtain ⟨x, y, rfl⟩ := Scalar.exists_u32s hdata
    have hdirect : evalLibfunc "u32_safe_divmod" [.u32 x, .u32 y] =
        if y = 0 then .error .divisionByZero else .ok [.u32 (x / y), .u32 (x % y)] := rfl
    rw [hdirect, Recipe.eval, Intrinsic.compute]
    split <;> rfl
  -- conversions
  · obtain ⟨a, rfl, ha⟩ := Scalar.exists_of_map_ty hdata
    obtain ⟨x, rfl⟩ := Scalar.exists_u32 ha
    rfl
  · obtain ⟨a, rfl, ha⟩ := Scalar.exists_of_map_ty hdata
    obtain ⟨x, rfl⟩ := Scalar.exists_felt ha
    rfl

end Libfuncs

theorem Recipe.eval_typed {r : Recipe} {data outputs : List Scalar}
    (hdata : data.map Scalar.ty = r.params) (h : r.eval data = some outputs) :
    outputs.map Scalar.ty = r.results := by
  cases r with
  | constant imm =>
      obtain rfl : [imm] = outputs := Option.some.inj h
      rfl
  | helper callee =>
      rcases Intrinsic.compute_typed hdata with ⟨outputs', hcompute, htypes⟩ | ⟨culprit, hzero⟩
      · simp only [eval, hcompute, Except.toOption] at h
        obtain rfl : outputs' = outputs := Option.some.inj h
        exact htypes
      · simp [eval, hzero, Except.toOption] at h
  | comparison ty pred =>
      obtain ⟨a, b, rfl, -, -⟩ := Scalar.exists_pair_of_map_ty hdata
      obtain ⟨outcome, -, rfl⟩ := Option.map_eq_some_iff.mp h
      rfl
  | zeroTest ty =>
      obtain ⟨a, rfl, -⟩ := Scalar.exists_of_map_ty hdata
      obtain rfl : [_] = outputs := Option.some.inj h
      rfl

/-- Only a helper divides. -/
theorem Recipe.size_of_eval_eq_none {r : Recipe} {data : List Scalar}
    (hdata : data.map Scalar.ty = r.params) (h : r.eval data = none) : r.size = 1 := by
  have hlen : data.length = r.params.length := by
    rw [← hdata, List.length_map]
  cases r.shaped hlen rfl with
  | zeroTest ty a => simp [eval] at h
  | constant | helper | comparison => rfl

section Source

variable {s : Source} {st : SourceState} {o : Op} {rest : List Op} {r : Recipe}
  {args results : List Var} {data : List Scalar}

theorem SourceState.readAll_singleton {v : Var} (h : st.readAll [v] = .ok data) :
    ∃ d, st.read v = .ok d ∧ data = [d] := by
  obtain ⟨d, _, hd, hrest, rfl⟩ := List.forall₂_cons_left_iff.mp (mapM_eq_ok_iff.mp h)
  rw [List.forall₂_nil_left_iff.mp hrest]
  exact ⟨d, hd, rfl⟩

/-- An operation with a recipe binds the outputs of the recipe. -/
theorem Source.step_of_eval {outputs : List Scalar} (ho : o.asCall? = some (r, args, results))
    (hahead : st.ahead = o :: rest) (hread : st.readAll args = .ok data)
    (hdata : data.map Scalar.ty = r.params) (heval : r.eval data = some outputs)
    (hlen : results.length = outputs.length) :
    ∃ scope, s.step st = .ok (.inl ⟨rest, scope⟩) ∧
      ∀ v, scope.lookup v = ((results.zip outputs).lookup v).or (st.scope.lookup v) := by
  cases o with
  | label | branch | condBranch | ret => simp [Op.asCall?] at ho
  | const dest value =>
      simp only [Op.asCall?, Option.some.injEq, Prod.mk.injEq] at ho
      obtain ⟨rfl, rfl, rfl⟩ := ho
      obtain rfl : [value] = outputs := Option.some.inj heval
      refine ⟨[(dest, value)] ++ st.scope, by simp [step, hahead], ?_⟩
      intro v
      rw [List.lookup_append]
      rfl
  | dup ty src first second =>
      simp only [Op.asCall?, Option.some.injEq, Prod.mk.injEq] at ho
      obtain ⟨rfl, rfl, rfl⟩ := ho
      obtain ⟨d, hd, rfl⟩ := SourceState.readAll_singleton hread
      obtain rfl : [d, d] = outputs := Option.some.inj heval
      refine ⟨[(second, d), (first, d)] ++ st.scope, ?_, ?_⟩
      · simp [step, hahead, hd, pure, Except.pure]
      · intro v
        -- the copies are bound in the other order, but hold the same value
        have hswap : [(second, d), (first, d)].lookup v = [(first, d), (second, d)].lookup v := by
          simp only [List.lookup_cons, List.lookup_nil]
          cases v == second <;> cases v == first <;> rfl
        rw [List.lookup_append, hswap]
        rfl
  | storeTemp ty src dest | rename ty src dest =>
      simp only [Op.asCall?, Option.some.injEq, Prod.mk.injEq] at ho
      obtain ⟨rfl, rfl, rfl⟩ := ho
      obtain ⟨d, hd, rfl⟩ := SourceState.readAll_singleton hread
      obtain rfl : [d] = outputs := Option.some.inj heval
      refine ⟨[(dest, d)] ++ st.scope, ?_, ?_⟩
      · simp [step, hahead, hd, pure, Except.pure]
      · intro v
        rw [List.lookup_append]
        rfl
  | call libfunc args' results' =>
      obtain ⟨r', hr, heq⟩ := Option.map_eq_some_iff.mp ho
      simp only [Prod.mk.injEq] at heq
      obtain ⟨rfl, rfl, rfl⟩ := heq
      have hcall := evalLibfunc_eq (mem_of_lookup_eq_some hr) hdata
      rw [heval] at hcall
      refine ⟨results'.zip outputs ++ st.scope, ?_, ?_⟩
      · simp [step, hahead, hread, hcall, bindVars, hlen, pure, Except.pure]
      · intro v
        rw [List.lookup_append]

theorem Source.step_of_eval_eq_none (ho : o.asCall? = some (r, args, results))
    (hahead : st.ahead = o :: rest) (hread : st.readAll args = .ok data)
    (hdata : data.map Scalar.ty = r.params) (heval : r.eval data = none) :
    s.step st = .error .divisionByZero := by
  cases o with
  | label | branch | condBranch | ret => simp [Op.asCall?] at ho
  | const dest value =>
      simp only [Op.asCall?, Option.some.injEq, Prod.mk.injEq] at ho
      obtain ⟨rfl, rfl, rfl⟩ := ho
      simp [Recipe.eval] at heval
  | dup ty src _ _ | storeTemp ty src _ | rename ty src _ =>
      simp only [Op.asCall?, Option.some.injEq, Prod.mk.injEq] at ho
      obtain ⟨rfl, rfl, rfl⟩ := ho
      obtain ⟨d, hd, rfl⟩ := SourceState.readAll_singleton hread
      simp [Recipe.eval, Intrinsic.compute, Except.toOption] at heval
  | call libfunc args' results' =>
      obtain ⟨r', hr, heq⟩ := Option.map_eq_some_iff.mp ho
      simp only [Prod.mk.injEq] at heq
      obtain ⟨rfl, rfl, rfl⟩ := heq
      have hcall := evalLibfunc_eq (mem_of_lookup_eq_some hr) hdata
      rw [heval] at hcall
      simp [step, hahead, hread, hcall]

end Source

/-- Registers were written, and all others are as before. -/
structure Frame.Updates (fr fr' : Frame) (vs : List ValueId) (data : List Scalar) : Prop where
  size : fr'.registers.length = fr.registers.length
  written : List.Forall₂ (fun v d => fr'.read v = .ok d) vs data
  others : ∀ w, w ∉ vs → fr'.read w = fr.read w

namespace Function

variable {f : Function} {fr : Frame}

theorem exists_bindAll_updates {vs : List ValueId} {data : List Scalar}
    (hsize : fr.registers.length = f.valueTypes.length)
    (htypes : f.HasTypes vs (data.map Scalar.ty)) (hnodup : vs.Nodup) :
    ∃ fr', f.bindAll fr (vs.zip data) = .ok fr' ∧ fr.Updates fr' vs data := by
  obtain ⟨fr', hbind⟩ := exists_bindAll hsize htypes
  have hlen : vs.length = data.length := by simpa using htypes.length_eq
  refine ⟨fr', hbind, length_of_bindAll hbind, read_of_bindAll hbind hlen hnodup, ?_⟩
  intro w hw
  apply read_of_bindAll_of_notMem hbind
  rwa [List.map_fst_zip hlen.le]

theorem exists_write_updates {v : ValueId} {d : Scalar}
    (hsize : fr.registers.length = f.valueTypes.length) (htype : f.HasType v d.ty) :
    ∃ fr', fr.write v d = .ok fr' ∧ fr.Updates fr' [v] [d] := by
  obtain ⟨fr', hwrite⟩ := exists_write hsize htype d
  refine ⟨fr', hwrite, Frame.length_of_write hwrite, .cons (Frame.read_of_write hwrite) .nil, ?_⟩
  intro w hw
  exact Frame.read_of_write_of_ne hwrite (by simpa using hw)

end Function

section Machine

variable {f : Function} {m : MachineState} {r : Recipe} {next : Nat} {xs : List ValueId}
  {data : List Scalar} {is : List Instruction}

/-- The machine has run the code of a recipe, one step for each instruction: the outputs are
written, and what was numbered before is as it was. -/
structure Recipe.Ran (f : Function) (next : Nat) (m : MachineState) (is : List Instruction)
    (xs : List ValueId) (outputs : List Scalar) (m' : MachineState) : Prop where
  steps : ∃ n, m.pending.length = is.length + (n + 1) ∧ f.Steps (n + 1) m m'
  pending : m'.pending = is
  terminator : m'.terminator = m.terminator
  size : m'.frame.registers.length = m.frame.registers.length
  written : List.Forall₂ (fun v d => m'.frame.read v = .ok d) xs outputs
  others : ∀ x : ValueId, x.index < next → m'.frame.read x = m.frame.read x

theorem Recipe.ran_of_execute {i : Instruction} {fr' : Frame} {vs : List ValueId}
    {outputs : List Scalar} (hpending : m.pending = i :: is)
    (hexec : f.execute m.frame.ticked i = .ok fr') (hupdates : m.frame.ticked.Updates fr' vs outputs)
    (hvs : ∀ v ∈ vs, next ≤ v.index) :
    Ran f next m is vs outputs { m with frame := fr', pending := is } := by
  refine ⟨⟨0, by rw [hpending, List.length_cons],
    .step (Function.step_instruction hpending hexec) .refl⟩, rfl, rfl, hupdates.size,
    hupdates.written, ?_⟩
  intro x hx
  exact hupdates.others x fun hmem => absurd (hvs x hmem) (by omega)

theorem Recipe.Ran.trans {m' m'' : MachineState} {is' : List Instruction} {vs : List ValueId}
    {outputs outputs' : List Scalar} (h : Ran f next m is vs outputs m')
    (h' : Ran f next m' is' xs outputs' m'') : Ran f next m is' xs outputs' m'' := by
  obtain ⟨n, hcount, hsteps⟩ := h.steps
  obtain ⟨n', hcount', hsteps'⟩ := h'.steps
  rw [h.pending] at hcount'
  refine ⟨⟨n + 1 + n', by omega, hsteps.trans hsteps'⟩, h'.pending,
    h'.terminator.trans h.terminator, h'.size.trans h.size, h'.written, ?_⟩
  intro x hx
  rw [h'.others x hx, h.others x hx]

theorem Recipe.exists_ran_const {imm : Scalar} {v : ValueId}
    (hsize : m.frame.registers.length = f.valueTypes.length) (htype : f.HasType v imm.ty)
    (hv : next ≤ v.index) (hpending : m.pending = .const v imm :: is) :
    ∃ m', Ran f next m is [v] [imm] m' := by
  have hticked : m.frame.ticked.registers.length = f.valueTypes.length := hsize
  obtain ⟨fr', hwrite, hupdates⟩ := Function.exists_write_updates hticked htype
  exact ⟨_, ran_of_execute hpending hwrite hupdates (by simpa using hv)⟩

theorem Recipe.exists_ran_cmp {pred : Predicate} {v lhs rhs : ValueId} {a b : Scalar}
    {outcome : Bool} (hsize : m.frame.registers.length = f.valueTypes.length)
    (htype : f.HasType v .bool) (hv : next ≤ v.index)
    (hpending : m.pending = .cmp v pred lhs rhs :: is) (ha : m.frame.read lhs = .ok a)
    (hb : m.frame.read rhs = .ok b) (hholds : pred.holds? a b = some outcome) :
    ∃ m', Ran f next m is [v] [.bool outcome] m' := by
  have hticked : m.frame.ticked.registers.length = f.valueTypes.length := hsize
  have htype : f.HasType v (Scalar.bool outcome).ty := htype
  obtain ⟨fr', hwrite, hupdates⟩ := Function.exists_write_updates hticked htype
  have ha : m.frame.ticked.read lhs = .ok a := ha
  have hb : m.frame.ticked.read rhs = .ok b := hb
  have hexec : f.execute m.frame.ticked (.cmp v pred lhs rhs) = .ok fr' :=
    (Function.execute_cmp ha hb hholds).trans hwrite
  exact ⟨_, ran_of_execute hpending hexec hupdates (by simpa using hv)⟩

theorem Recipe.ran_call_cases {callee : Intrinsic}
    (hsize : m.frame.registers.length = f.valueTypes.length)
    (hread : m.frame.readAll xs = .ok data) (hdata : data.map Scalar.ty = callee.params)
    (hnew : f.HasTypes (numbered next callee.results.length) callee.results)
    (hpending : m.pending = .call callee xs (numbered next callee.results.length) :: is) :
    (∃ outputs m', callee.compute data = .ok outputs ∧
      Ran f next m is (numbered next callee.results.length) outputs m') ∨
    ∃ culprit, callee.compute data = .error (.divisionByZero culprit) ∧
      f.step m = .error (.divisionByZero culprit) := by
  have hticked : m.frame.ticked.registers.length = f.valueTypes.length := hsize
  have hread : m.frame.ticked.readAll xs = .ok data := hread
  rcases Intrinsic.compute_typed hdata with ⟨outputs, hcompute, htypes⟩ | ⟨culprit, hzero⟩
  · have hlen : outputs.length = (numbered next callee.results.length).length := by
      rw [length_numbered, ← htypes, List.length_map]
    have hresults : f.HasTypes (numbered next callee.results.length)
        (outputs.map Scalar.ty) := by rwa [htypes]
    obtain ⟨fr', hbind, hupdates⟩ :=
      Function.exists_bindAll_updates hticked hresults (nodup_numbered _ _)
    have hexec := (Function.execute_call hread hcompute hlen).trans hbind
    refine .inl ⟨outputs, _, hcompute, ran_of_execute hpending hexec hupdates ?_⟩
    intro v hv
    exact (mem_numbered_iff.mp hv).1
  · refine .inr ⟨culprit, hzero, ?_⟩
    exact Function.step_instruction_error hpending (Function.execute_call_error hread hzero)

/-- On arguments of its parameter types, the code of a recipe gives the outputs of the recipe,
or divides by zero where the recipe fails. -/
theorem Recipe.code_runs (hsize : m.frame.registers.length = f.valueTypes.length)
    (hread : m.frame.readAll xs = .ok data) (hdata : data.map Scalar.ty = r.params)
    (hbelow : ∀ x ∈ xs, x.index < next)
    (hnew : f.HasTypes (numbered next (r.code next xs).types.length) (r.code next xs).types)
    (hpending : m.pending = (r.code next xs).instructions ++ is) :
    (∃ outputs m', r.eval data = some outputs ∧
      Ran f next m is (r.code next xs).outputs outputs m') ∨
    (r.eval data = none ∧ ∃ culprit, f.step m = .error (.divisionByZero culprit)) := by
  cases r with
  | constant imm =>
      have htype : f.HasType ⟨next⟩ imm.ty := (List.forall₂_cons.mp hnew).1
      obtain ⟨m', hran⟩ := exists_ran_const hsize htype (Nat.le_refl next) hpending
      exact .inl ⟨[imm], m', rfl, hran⟩
  | helper callee =>
      rcases ran_call_cases hsize hread hdata hnew hpending with
        ⟨outputs, m', hcompute, hran⟩ | ⟨culprit, hzero, hstep⟩
      · exact .inl ⟨outputs, m', by simp [eval, hcompute, Except.toOption], hran⟩
      · exact .inr ⟨by simp [eval, hzero, Except.toOption], culprit, hstep⟩
  | comparison ty pred =>
      obtain ⟨a, b, rfl, ha, hb⟩ := Scalar.exists_pair_of_map_ty hdata
      obtain ⟨lhs, _, hlhs, hrest, rfl⟩ :=
        List.forall₂_cons_right_iff.mp (Frame.readAll_eq_ok_iff.mp hread)
      obtain ⟨rhs, _, hrhs, hnil, rfl⟩ := List.forall₂_cons_right_iff.mp hrest
      obtain rfl := List.forall₂_nil_right_iff.mp hnil
      obtain ⟨outcome, hholds⟩ : ∃ outcome, pred.holds? a b = some outcome :=
        Predicate.exists_holds (ha.trans hb.symm)
      have htype : f.HasType ⟨next⟩ .bool := (List.forall₂_cons.mp hnew).1
      obtain ⟨m', hran⟩ :=
        exists_ran_cmp hsize htype (Nat.le_refl next) hpending hlhs hrhs hholds
      exact .inl ⟨[.bool outcome], m', by simp [eval, hholds], hran⟩
  | zeroTest ty =>
      obtain ⟨a, rfl, ha⟩ := Scalar.exists_of_map_ty hdata
      obtain ⟨v, _, hv, hnil, rfl⟩ :=
        List.forall₂_cons_right_iff.mp (Frame.readAll_eq_ok_iff.mp hread)
      obtain rfl := List.forall₂_nil_right_iff.mp hnil
      obtain ⟨hzero, hrest⟩ := List.forall₂_cons.mp hnew
      have hzero : f.HasType ⟨next⟩ (Scalar.zero ty).ty := by
        rw [Scalar.ty_zero]
        exact hzero
      have hbool : f.HasType ⟨next + 1⟩ .bool := (List.forall₂_cons.mp hrest).1
      -- the argument has a smaller number than the zero that is written first
      obtain ⟨m₁, hfirst⟩ := exists_ran_const hsize hzero (Nat.le_refl next) hpending
      have harg : m₁.frame.read v = .ok a := by
        rw [hfirst.others v (hbelow v List.mem_cons_self)]
        exact hv
      have hholds : Predicate.eq.holds? a (.zero ty) = some (a == .zero ty) := by
        simp [Predicate.holds?, Scalar.ty_zero, ha]
      obtain ⟨m', hsecond⟩ := exists_ran_cmp (hfirst.size.trans hsize) hbool
        (Nat.le_succ next) hfirst.pending harg (List.forall₂_cons.mp hfirst.written).1 hholds
      exact .inl ⟨[.bool (a == .zero ty)], m', rfl, hfirst.trans hsecond⟩

end Machine

end FieldSSA
