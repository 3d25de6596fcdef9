import FieldSSA.Proofs.Acceptance
import FieldSSA.Proofs.Budget
import FieldSSA.Proofs.Evaluation
import FieldSSA.Proofs.FieldArithmetic

/-!
A translation runs as its source does. The state of the machine has the values of the variables
in scope, and its code is that of the operations ahead; each operation of the source is one or two
steps of the machine.
-/

namespace FieldSSA

theorem lookup_zip_cases {α β : Type} {R : α → β → Prop} {vars : List Var} {xs : List α}
    {ys : List β} (h : List.Forall₂ R xs ys) (v : Var) :
    ((vars.zip xs).lookup v = none ∧ (vars.zip ys).lookup v = none) ∨
      ∃ x y, (vars.zip xs).lookup v = some x ∧ (vars.zip ys).lookup v = some y ∧ R x y := by
  induction h generalizing vars with
  | nil => simp
  | @cons x y xs ys hR _ ih =>
      cases vars with
      | nil => simp
      | cons w vars =>
          simp only [List.zip_cons_cons, List.lookup_cons]
          cases v == w with
          | true => exact .inr ⟨x, y, rfl, rfl, hR⟩
          | false => exact ih

/-- The values of variables are in their registers. New values are numbered from `next`. -/
structure Holds (f : Function) (vals : Assignment) (next : Nat) (scope : List (Var × Scalar))
    (fr : Frame) : Prop where
  size : fr.registers.length = f.valueTypes.length
  below : ∀ v x, vals v = some x → x.index < next
  values : ∀ v x, vals v = some x →
    ∃ d, scope.lookup v = some d ∧ fr.read x = .ok d ∧ f.HasType x d.ty

/-- The machine is where the direct execution is. -/
def Simulates (src : Source) (labels : List (Label × BlockId)) (f : Function) (st : SourceState)
    (m : MachineState) : Prop :=
  ∃ vals next, Holds f vals next st.scope m.frame ∧
    Coded src labels f vals next st.ahead m.pending m.terminator

/-- The steps of the machine for the next operation. -/
def SourceState.cost (st : SourceState) : Nat :=
  match st.ahead with
  | [] => 0
  | o :: _ => o.codeSize

namespace Source

/-- The steps of the machine for the operations that a run goes through, at most `budget`. -/
def costFrom (s : Source) : (budget : Nat) → SourceState → Nat
  | 0, _ => 0
  | budget + 1, st =>
    match s.step st with
    | .ok (.inl next) => st.cost + s.costFrom budget next
    | _ => st.cost

/-- The steps of the machine for a run on arguments. -/
def cost (s : Source) (budget : Nat) (args : List Scalar) : Nat :=
  s.costFrom budget ⟨s.ops, s.paramVars.zip args⟩

theorem costFrom_le (s : Source) (budget : Nat) (st : SourceState) :
    s.costFrom budget st ≤ 2 * budget := by
  have hcost (st : SourceState) : st.cost ≤ 2 := by
    unfold SourceState.cost
    split
    · exact Nat.zero_le 2
    · exact Op.codeSize_le _
  induction budget generalizing st with
  | zero => exact Nat.le_refl 0
  | succ budget ih =>
      have hhead := hcost st
      rw [costFrom]
      split
      · have hrest := ih ‹_›
        omega
      · omega

end Source

section Holds

variable {f : Function} {vals : Assignment} {next : Nat} {st : SourceState} {fr : Frame}

theorem Holds.read (h : Holds f vals next st.scope fr) {v : Var} {x : ValueId}
    (hx : vals v = some x) :
    ∃ d, st.read v = .ok d ∧ fr.read x = .ok d ∧ f.HasType x d.ty := by
  obtain ⟨d, hlookup, hread, htype⟩ := h.values v x hx
  exact ⟨d, by simp [SourceState.read, hlookup], hread, htype⟩

theorem Holds.readAll (h : Holds f vals next st.scope fr) {args : List Var} {xs : List ValueId}
    {types : List Ty} (hargs : List.Forall₂ (fun v x => vals v = some x) args xs)
    (htypes : f.HasTypes xs types) :
    ∃ data, st.readAll args = .ok data ∧ fr.readAll xs = .ok data ∧
      data.map Scalar.ty = types := by
  induction hargs generalizing types with
  | nil =>
      rw [List.forall₂_nil_left_iff.mp htypes]
      exact ⟨[], rfl, rfl, rfl⟩
  | @cons v x args xs hx _ ih =>
      obtain ⟨ty, types, htype, hrest, rfl⟩ := List.forall₂_cons_left_iff.mp htypes
      obtain ⟨d, hsource, hmachine, hd⟩ := h.read hx
      obtain ⟨data, hsources, hmachines, hdata⟩ := ih hrest
      obtain rfl : d.ty = ty := Option.some.inj (hd.symm.trans htype)
      refine ⟨d :: data, ?_, ?_, by rw [List.map_cons, hdata]⟩
      · exact mapM_eq_ok_iff.mpr (.cons hsource (mapM_eq_ok_iff.mp hsources))
      · exact mapM_eq_ok_iff.mpr (.cons hmachine (mapM_eq_ok_iff.mp hmachines))

theorem Holds.set (h : Holds f vals next st.scope fr) {fr' : Frame} {next' : Nat}
    {vars : List Var} {xs : List ValueId} {data : List Scalar} {scope : List (Var × Scalar)}
    (hsize : fr'.registers.length = fr.registers.length) (hnext : next ≤ next')
    (hbelow : ∀ x ∈ xs, x.index < next')
    (hold : ∀ x : ValueId, x.index < next → fr'.read x = fr.read x)
    (hread : List.Forall₂ (fun x d => fr'.read x = .ok d) xs data)
    (htypes : f.HasTypes xs (data.map Scalar.ty))
    (hscope : ∀ v, scope.lookup v = ((vars.zip data).lookup v).or (st.scope.lookup v)) :
    Holds f (vals.set vars xs) next' scope fr' := by
  have hnew : List.Forall₂ (fun x d => fr'.read x = .ok d ∧ f.HasType x d.ty) xs data :=
    hread.mp (fun _ _ => And.intro) (List.forall₂_map_right_iff.mp htypes)
  refine ⟨hsize.trans h.size, ?_, ?_⟩
  · intro v x hx
    rcases Option.or_eq_some_iff.mp hx with hlookup | ⟨-, hx⟩
    · exact hbelow x (List.of_mem_zip (mem_of_lookup_eq_some hlookup)).2
    · exact Nat.lt_of_lt_of_le (h.below v x hx) hnext
  · intro v x hx
    rw [hscope v]
    rcases lookup_zip_cases hnew v with ⟨hnone, hnone'⟩ | ⟨x', d, hx', hd, hread, htype⟩
    · rw [Assignment.set, hnone, Option.none_or] at hx
      rw [hnone', Option.none_or, hold x (h.below v x hx)]
      exact h.values v x hx
    · rw [Assignment.set, hx', Option.some_or] at hx
      obtain rfl : x' = x := Option.some.inj hx
      exact ⟨d, by rw [hd, Option.some_or], hread, htype⟩

end Holds

section Step

variable {src : Source} {labels : List (Label × BlockId)} {f : Function} {st : SourceState}
  {m : MachineState} {vals : Assignment} {next : Nat}

/-- A block is entered with the parameters of its segment in scope. -/
theorem Translates.exists_enter (h : Translates src labels f) {fr : Frame} {id : BlockId}
    {b : Block} {params : List (Var × Ty)} {os : List Op} {data : List Scalar}
    (visited : List BlockId) (hsize : fr.registers.length = f.valueTypes.length)
    (hb : f.block? id = some b) (hcoded : BlockCoded src labels f params os b)
    (hdata : data.map Scalar.ty = params.map Prod.snd) :
    ∃ m, f.enter fr visited id data = .ok m ∧
      Simulates src labels f ⟨os, (params.map Prod.fst).zip data⟩ m := by
  have hmem : b ∈ f.blocks := (Function.mem_blocks_of_block? hb).1
  have hnodup : b.params.Nodup := by
    have hdefs : b.definitions.Nodup := (List.nodup_flatMap.mp h.definitions).1 b hmem
    exact (List.nodup_append'.mp hdefs).1
  have htypes : f.HasTypes b.params (data.map Scalar.ty) := hdata ▸ hcoded.typed
  have hlen : b.params.length = data.length := by simpa using htypes.length_eq
  obtain ⟨fr', hbind, hupdates⟩ := Function.exists_bindAll_updates hsize htypes hnodup
  obtain ⟨next, hbelow, hcode⟩ := hcoded.code
  -- nothing of the block that was left is in scope
  have hempty : Holds f (fun _ => none) 0 (SourceState.mk os []).scope fr :=
    ⟨hsize, by simp, by simp⟩
  refine ⟨_, Function.enter_of_bindAll visited hb hlen hbind, _, next, ?_, hcode⟩
  exact hempty.set hupdates.size (Nat.zero_le next) hbelow (by simp) hupdates.written htypes
    (by simp)

/-- A branch of the source and its edge lead to states that correspond. -/
theorem Translates.exists_jump (h : Translates src labels f)
    (hholds : Holds f vals next st.scope m.frame) {l : Label} {args : List Var} {edge : Edge}
    (hedge : EdgeCoded src labels f vals l args edge) :
    ∃ data st' m', st.readAll args = .ok data ∧ src.jump l data = .ok st' ∧
      m.frame.ticked.readAll edge.args = .ok data ∧
      f.enter m.frame.ticked m.visited edge.dest data = .ok m' ∧
      Simulates src labels f st' m' := by
  obtain ⟨types, htypes, hargs⟩ := hedge.typed
  obtain ⟨⟨params, ahead⟩, hfound, rfl⟩ := Option.map_eq_some_iff.mp htypes
  obtain ⟨id, b, -, hlookup, hb, hcoded⟩ := h.placed l params ahead hfound
  obtain rfl : edge.dest = id := Option.some.inj (hedge.dest.symm.trans hlookup)
  obtain ⟨data, hsource, hmachine, hdata⟩ := hholds.readAll hedge.args hargs
  have hsize : m.frame.ticked.registers.length = f.valueTypes.length := hholds.size
  obtain ⟨m', henter, hsimulates⟩ := h.exists_enter m.visited hsize hb hcoded hdata
  have hlen : (params.map Prod.fst).length = data.length := by
    have := congrArg List.length hdata
    simpa using this.symm
  refine ⟨data, _, m', hsource, ?_, hmachine, henter, hsimulates⟩
  simp [Source.jump, hfound, Source.bindVars, hlen, pure, Except.pure]

/-- How a step of the source and steps of the machine agree: both go on, the machine by the steps
of the operation, return the same values or divide by zero. -/
def Agrees (src : Source) (labels : List (Label × BlockId)) (f : Function) (st : SourceState)
    (m : MachineState) : Prop :=
  (∃ st' m', src.step st = .ok (.inl st') ∧ 0 < st.cost ∧ f.Steps st.cost m m' ∧
    Simulates src labels f st' m') ∨
  (∃ data, src.step st = .ok (.inr data) ∧ st.cost = 1 ∧ f.step m = .ok (.finished data)) ∨
  (src.step st = .error .divisionByZero ∧ st.cost = 1 ∧
    ∃ culprit, f.step m = .error (.divisionByZero culprit))

theorem SourceState.cost_of_cons {o : Op} {rest : List Op} (h : st.ahead = o :: rest) :
    st.cost = o.codeSize := by
  rw [cost, h]

theorem Translates.agrees_of_ends (h : Translates src labels f)
    (hholds : Holds f vals next st.scope m.frame) {o : Op} {rest : List Op}
    (hahead : st.ahead = o :: rest) (hpending : m.pending = [])
    (hends : Ends src labels f vals o m.terminator) : Agrees src labels f st m := by
  have hcost : st.cost = 1 := by
    rw [SourceState.cost_of_cons hahead, Op.codeSize_of_isTerminator hends.isTerminator]
  have hgo {st' : SourceState} {m' : MachineState} (hsource : src.step st = .ok (.inl st'))
      (hstep : f.step m = .ok (.running m')) (hsim : Simulates src labels f st' m') :
      Agrees src labels f st m :=
    .inl ⟨st', m', hsource, by omega, hcost ▸ .step hstep .refl, hsim⟩
  generalize hterm : m.terminator = term at hends
  cases hends with
  | branch hedge =>
      obtain ⟨data, st', m', hread, hjump, hreads, henter, hsim⟩ := h.exists_jump hholds hedge
      refine hgo ?_ (Function.step_br hpending hterm hreads henter) hsim
      simp [Source.step, hahead, hread, hjump, pure, Except.pure]
  | @condBranch cond x l l' args args' edge edge' hcond hbool hedge hedge' =>
      obtain ⟨d, hread, hmachine, htype⟩ := hholds.read hcond
      obtain ⟨taken, rfl⟩ := Scalar.exists_bool (Option.some.inj (htype.symm.trans hbool))
      have hticked : m.frame.ticked.read x = .ok (.bool taken) := hmachine
      cases taken with
      | true =>
          obtain ⟨data, st', m', hargs, hjump, hreads, henter, hsim⟩ :=
            h.exists_jump hholds hedge
          refine hgo ?_ (Function.step_condBr hpending hterm hticked hreads henter) hsim
          simp [Source.step, hahead, hread, hargs, hjump, pure, Except.pure]
      | false =>
          obtain ⟨data, st', m', hargs, hjump, hreads, henter, hsim⟩ :=
            h.exists_jump hholds hedge'
          refine hgo ?_ (Function.step_condBr hpending hterm hticked hreads henter) hsim
          simp [Source.step, hahead, hread, hargs, hjump, pure, Except.pure]
  | ret hargs htypes =>
      obtain ⟨data, hread, hreads, -⟩ := hholds.readAll hargs htypes
      refine .inr (.inl ⟨data, ?_, hcost, Function.step_ret hpending hterm hreads⟩)
      simp [Source.step, hahead, hread, pure, Except.pure]

theorem agrees_of_code (hholds : Holds f vals next st.scope m.frame) {o : Op} {rest : List Op}
    {r : Recipe} {args results : List Var} {xs : List ValueId} {is : List Instruction}
    (hahead : st.ahead = o :: rest) (hpending : m.pending = (r.code next xs).instructions ++ is)
    (ho : o.asCall? = some (r, args, results)) (hlen : r.results.length = results.length)
    (hargs : List.Forall₂ (fun v x => vals v = some x) args xs) (htypes : f.HasTypes xs r.params)
    (hnew : f.HasTypes (numbered next (r.code next xs).types.length) (r.code next xs).types)
    (hrest : Coded src labels f (vals.set results (r.code next xs).outputs)
      (next + (r.code next xs).types.length) rest is m.terminator) :
    Agrees src labels f st m := by
  obtain ⟨data, hread, hreads, hdata⟩ := hholds.readAll hargs htypes
  have hcost : st.cost = r.size := by
    rw [SourceState.cost_of_cons hahead, Op.codeSize_of_asCall? ho]
  have hbelow : ∀ x ∈ xs, x.index < next := by
    intro x hx
    obtain ⟨v, -, hv⟩ := exists_mem_of_forall₂ hargs.flip hx
    exact hholds.below v x hv
  rcases Recipe.code_runs hholds.size hreads hdata hbelow hnew hpending with
    ⟨outputs, m', heval, hran⟩ | ⟨heval, culprit, hstep⟩
  · have houtputs : outputs.map Scalar.ty = r.results := Recipe.eval_typed hdata heval
    have hcount : results.length = outputs.length := by
      rw [← hlen, ← houtputs, List.length_map]
    obtain ⟨scope, hstep, hscope⟩ := Source.step_of_eval ho hahead hread hdata heval hcount
    obtain ⟨n, hcount, hsteps⟩ := hran.steps
    have hn : n + 1 = st.cost := by
      rw [hpending, List.length_append, Recipe.length_code htypes.length_eq] at hcount
      omega
    have htyped : f.HasTypes (r.code next xs).outputs (outputs.map Scalar.ty) := by
      rw [houtputs]
      exact (Recipe.code_typed htypes (List.Subset.refl xs) hnew).2
    have hfresh : ∀ x ∈ (r.code next xs).outputs,
        x.index < next + (r.code next xs).types.length := by
      intro x hx
      have hmem := (Recipe.code_outputs_sublist htypes.length_eq).subset hx
      exact (mem_numbered_iff.mp hmem).2
    have hholds' := hholds.set hran.size (Nat.le_add_right _ _) hfresh hran.others hran.written
      htyped hscope
    rw [← hran.pending, ← hran.terminator] at hrest
    exact .inl ⟨⟨rest, scope⟩, m', hstep, by omega, hn ▸ hsteps, _, _, hholds', hrest⟩
  · exact .inr (.inr ⟨Source.step_of_eval_eq_none ho hahead hread hdata heval,
      hcost.trans (Recipe.size_of_eval_eq_none hdata heval), culprit, hstep⟩)

theorem Translates.step_agrees (h : Translates src labels f)
    (hsim : Simulates src labels f st m) : Agrees src labels f st m := by
  obtain ⟨vals, next, hholds, hcoded⟩ := hsim
  generalize hahead : st.ahead = ahead at hcoded
  generalize hpending : m.pending = pending at hcoded
  cases hcoded with
  | last hends => exact h.agrees_of_ends hholds hahead hpending hends
  | step ho hlen hargs htypes hnew hrest =>
      exact agrees_of_code hholds hahead hpending ho hlen hargs htypes hnew hrest

/-- What a run of the source says about the runs of the machine: the machine takes the steps of the
operations that were run, and then ends as the source does. -/
theorem Translates.runFrom_agrees (h : Translates src labels f)
    (hsim : Simulates src labels f st m) (n : Nat) :
    (src.runFrom n st = .ok none ∧ n ≤ src.costFrom n st ∧ ∀ limit budget,
      budget ≤ src.costFrom n st → f.runFrom limit budget m = .error (.stepLimitExceeded limit)) ∨
    (∃ data, src.runFrom n st = .ok (some data) ∧
      f.Concludes m (src.costFrom n st) fun x => ∃ o, x = .ok o ∧ o.returns = data) ∨
    (src.runFrom n st = .error .divisionByZero ∧ ∃ culprit,
      f.Concludes m (src.costFrom n st) fun x => x = .error (.divisionByZero culprit)) := by
  induction n generalizing st m with
  | zero =>
      refine .inl ⟨rfl, Nat.le_refl 0, ?_⟩
      intro limit budget hbudget
      obtain rfl : budget = 0 := Nat.le_zero.mp hbudget
      rfl
  | succ n ih =>
      rcases h.step_agrees hsim with ⟨st', m', hstep, hpos, hsteps, hsim'⟩ |
        ⟨data, hstep, hcost, hfinish⟩ | ⟨hstep, hcost, culprit, hfail⟩
      · simp only [Source.runFrom, Source.costFrom, hstep]
        rcases ih hsim' with ⟨hnone, hle, hshort⟩ | ⟨data, hsome, hend⟩ | ⟨hzero, culprit, hend⟩
        · refine .inl ⟨hnone, by omega, ?_⟩
          intro limit budget hbudget
          rcases Nat.lt_or_ge budget st.cost with hlt | hge
          · exact hsteps.runFrom_of_lt limit hlt
          · obtain ⟨rest, rfl⟩ := Nat.exists_eq_add_of_le hge
            rw [hsteps.runFrom_add]
            exact hshort limit rest (by omega)
        · exact .inr (.inl ⟨data, hsome, hsteps.concludes hend⟩)
        · exact .inr (.inr ⟨hzero, culprit, hsteps.concludes hend⟩)
      · simp only [Source.runFrom, Source.costFrom, hstep, hcost]
        exact .inr (.inl ⟨data, rfl, Function.concludes_of_finished hfinish⟩)
      · simp only [Source.runFrom, Source.costFrom, hstep, hcost]
        exact .inr (.inr ⟨trivial, culprit, Function.concludes_of_error hfail⟩)

section Ends

-- the limits below `bound` are those that the machine can be given
variable (h : Translates src labels f) (hsim : Simulates src labels f st m) (bound : Nat)

include h hsim

theorem Translates.concludes_of_returns {n : Nat} {values : List Scalar}
    (hrun : src.runFrom n st = .ok (some values)) :
    f.Concludes m (src.costFrom n st) fun x => ∃ o, x = .ok o ∧ o.returns = values := by
  rcases h.runFrom_agrees hsim n with ⟨hnone, -⟩ | ⟨data, hsome, hend⟩ | ⟨hzero, -⟩
  · simp [hnone] at hrun
  · obtain rfl : data = values := by simpa [hsome] using hrun
    exact hend
  · simp [hzero] at hrun

theorem Translates.concludes_of_divides {n : Nat}
    (hrun : src.runFrom n st = .error .divisionByZero) :
    ∃ culprit, f.Concludes m (src.costFrom n st) (· = .error (.divisionByZero culprit)) := by
  rcases h.runFrom_agrees hsim n with ⟨hnone, -⟩ | ⟨data, hsome, -⟩ | ⟨-, hend⟩
  · simp [hnone] at hrun
  · simp [hsome] at hrun
  · exact hend

/-- What a run within a limit shows: the limit is exceeded, or as many operations as the limit are
enough for the source to end in the same way, in no more steps. -/
theorem Translates.limit_cases (limit : Nat) :
    f.runFrom limit limit m = .error (.stepLimitExceeded limit) ∨
      src.costFrom limit st ≤ limit ∧
        ((∃ o, f.runFrom limit limit m = .ok o ∧
            src.runFrom limit st = .ok (some o.returns)) ∨
          (∃ culprit, f.runFrom limit limit m = .error (.divisionByZero culprit)) ∧
            src.runFrom limit st = .error .divisionByZero) := by
  rcases h.runFrom_agrees hsim limit with ⟨-, hle, hshort⟩ | ⟨data, hsome, hend⟩ |
    ⟨hzero, culprit, hend⟩
  · exact .inl (hshort limit limit hle)
  · rcases hend.cases limit limit with hlimit | ⟨hcost, o, ho, rfl⟩
    · exact .inl hlimit
    · exact .inr ⟨hcost, .inl ⟨o, ho, hsome⟩⟩
  · rcases hend.cases limit limit with hlimit | ⟨hcost, hfail⟩
    · exact .inl hlimit
    · exact .inr ⟨hcost, .inr ⟨⟨culprit, hfail⟩, hzero⟩⟩

theorem Translates.returns_iff {values : List Scalar} :
    (∃ n, src.runFrom n st = .ok (some values) ∧ src.costFrom n st < bound) ↔
      ∃ limit o, limit < bound ∧ f.runFrom limit limit m = .ok o ∧ o.returns = values := by
  constructor
  · rintro ⟨n, hrun, hbound⟩
    have hend := h.concludes_of_returns hsim hrun
    obtain ⟨o, ho, hreturns⟩ := hend.enough _ _ (Nat.le_refl _)
    exact ⟨_, o, hbound, ho, hreturns⟩
  · rintro ⟨limit, o, hbound, ho, rfl⟩
    rcases h.limit_cases hsim limit with
      hlimit | ⟨hcost, ⟨o', ho', hrun⟩ | ⟨⟨culprit, hfail⟩, -⟩⟩
    · simp [hlimit] at ho
    · obtain rfl : o' = o := by simpa [ho'] using ho
      exact ⟨limit, hrun, Nat.lt_of_le_of_lt hcost hbound⟩
    · simp [hfail] at ho

theorem Translates.divides_iff :
    (∃ n, src.runFrom n st = .error .divisionByZero ∧ src.costFrom n st < bound) ↔
      ∃ limit culprit, limit < bound ∧
        f.runFrom limit limit m = .error (.divisionByZero culprit) := by
  constructor
  · rintro ⟨n, hrun, hbound⟩
    obtain ⟨culprit, hend⟩ := h.concludes_of_divides hsim hrun
    exact ⟨_, culprit, hbound, hend.enough _ _ (Nat.le_refl _)⟩
  · rintro ⟨limit, culprit, hbound, hfail⟩
    rcases h.limit_cases hsim limit with hlimit | ⟨hcost, ⟨o, ho, -⟩ | ⟨-, hrun⟩⟩
    · simp [hlimit] at hfail
    · simp [ho] at hfail
    · exact ⟨limit, hrun, Nat.lt_of_le_of_lt hcost hbound⟩

theorem Translates.runs_on_iff :
    (∀ n, src.costFrom n st < bound → src.runFrom n st = .ok none) ↔
      ∀ limit < bound, f.runFrom limit limit m = .error (.stepLimitExceeded limit) := by
  constructor
  · intro hnone limit hbound
    rcases h.limit_cases hsim limit with hlimit | ⟨hcost, hended⟩
    · exact hlimit
    · have hrun := hnone limit (Nat.lt_of_le_of_lt hcost hbound)
      simp [hrun] at hended
  · intro hlimit n hbound
    rcases h.runFrom_agrees hsim n with ⟨hnone, -⟩ | ⟨data, -, hend⟩ | ⟨-, culprit, hend⟩
    · exact hnone
    · obtain ⟨o, ho, -⟩ := hend.enough (src.costFrom n st) _ (Nat.le_refl _)
      simp [hlimit _ hbound] at ho
    · have hzero := hend.enough (src.costFrom n st) _ (Nat.le_refl _)
      simp [hlimit _ hbound] at hzero

theorem Translates.not_stuck (n : Nat) : src.runFrom n st ≠ .error .stuck := by
  rcases h.runFrom_agrees hsim n with ⟨hnone, -⟩ | ⟨data, hsome, -⟩ | ⟨hzero, -⟩
  · simp [hnone]
  · simp [hsome]
  · simp [hzero]

end Ends

end Step

namespace Source

/-- A run of the translation on arguments starts where the direct execution starts. -/
theorem exists_runs {s : Source} {labels : List (Label × BlockId)} {f : Function}
    (h : Translates s labels f) {args : List Scalar} (hargs : args.map Scalar.ty = s.paramTypes) :
    ∃ st m, (∀ n, s.run n args = s.runFrom n st) ∧ (∀ n, s.cost n args = s.costFrom n st) ∧
      (∀ limit, f.run limit args = f.runFrom limit limit m) ∧ Simulates s labels f st m := by
  obtain ⟨b, -, hb, hcoded⟩ := h.exists_entry
  have hsize : (Frame.ofSize f.valueTypes.length).registers.length = f.valueTypes.length := by
    simp [Frame.ofSize]
  obtain ⟨m, henter, hsim⟩ := h.exists_enter [] hsize hb hcoded hargs
  have hparams : args.map Scalar.ty = f.signature.params := by
    rw [h.signature]
    exact hargs
  have hlen : s.paramVars.length = args.length := by
    have hcount := congrArg List.length hargs
    simpa [paramVars, paramTypes] using hcount.symm
  refine ⟨_, m, ?_, fun _ => rfl, Function.run_eq_runFrom hparams henter, hsim⟩
  intro n
  rw [run, bindVars, if_pos hlen, ok_bind]

section Limit

variable {s : Source} {labels : List (Label × BlockId)} {f : Function} {args values : List Scalar}
  {n limit : Nat}

/-- The translation returns what the direct execution returns, within the steps of its
operations. -/
theorem concludes_of_run (h : Translates s labels f) (hargs : args.map Scalar.ty = s.paramTypes)
    (hrun : s.run n args = .ok (some values)) :
    ∃ m, (∀ limit, f.run limit args = f.runFrom limit limit m) ∧
      f.Concludes m (s.cost n args) fun x => ∃ o, x = .ok o ∧ o.returns = values := by
  obtain ⟨st, m, hsource, hcost, hmachine, hsim⟩ := exists_runs h hargs
  rw [hsource] at hrun
  rw [hcost]
  exact ⟨m, hmachine, h.concludes_of_returns hsim hrun⟩

/-- Where the direct execution returns within a number of operations, the translation returns the
same values within twice as many steps. -/
theorem exists_run_of_run (h : Translates s labels f) (hargs : args.map Scalar.ty = s.paramTypes)
    (hrun : s.run n args = .ok (some values)) (hlimit : 2 * n ≤ limit) :
    ∃ o, f.run limit args = .ok o ∧ o.returns = values := by
  obtain ⟨m, hmachine, hend⟩ := concludes_of_run h hargs hrun
  rw [hmachine]
  exact hend.enough limit limit ((s.costFrom_le n _).trans hlimit)

theorem run_of_lt_cost (h : Translates s labels f) (hargs : args.map Scalar.ty = s.paramTypes)
    (hrun : s.run n args = .ok (some values)) (hlimit : limit < s.cost n args) :
    f.run limit args = .error (.stepLimitExceeded limit) := by
  obtain ⟨m, hmachine, hend⟩ := concludes_of_run h hargs hrun
  rw [hmachine]
  exact hend.short limit limit hlimit

/-- The steps of the operations of a run are the steps that the machine reports. -/
theorem steps_eq_cost (h : Translates s labels f) (hargs : args.map Scalar.ty = s.paramTypes)
    (hrun : s.run n args = .ok (some values)) {o : Outcome} (ho : f.run limit args = .ok o) :
    o.steps = s.cost n args := by
  obtain ⟨m, hmachine, hend⟩ := concludes_of_run h hargs hrun
  apply Nat.le_antisymm
  · by_contra hlt
    have hshort := (Function.run_exact ho (s.cost n args)).2 (Nat.lt_of_not_le hlt)
    obtain ⟨o', ho', -⟩ := hend.enough (s.cost n args) _ (Nat.le_refl _)
    simp [hmachine, ho'] at hshort
  · by_contra hlt
    have hshort := run_of_lt_cost h hargs hrun (Nat.lt_of_not_le hlt)
    simp [(Function.run_exact ho o.steps).1.mpr (Nat.le_refl _)] at hshort

end Limit

/-- Emission preserves meaning, as far as a limit of 64 bits can tell. Among the runs of fewer than
`2 ^ 64` steps, the emitted function returns what the direct execution of the source returns, and
divides by zero where it does; it exceeds all limits where the direct execution has not ended by
then, and the direct execution does nothing else. The steps are those that the machine reports. -/
theorem emit_preserves_meaning (s : Source) (c : Config) (hc : c.validate = .ok ())
    (f : Function) (hemit : s.emit .default c = .ok f) (args : List Scalar)
    (hargs : args.map Scalar.ty = s.paramTypes) :
    (∀ values, (∃ n, s.run n args = .ok (some values) ∧ s.cost n args < 2 ^ 64) ↔
      ∃ limit o, limit < 2 ^ 64 ∧ f.run limit args = .ok o ∧ o.returns = values) ∧
    ((∃ n, s.run n args = .error .divisionByZero ∧ s.cost n args < 2 ^ 64) ↔
      ∃ limit culprit, limit < 2 ^ 64 ∧ f.run limit args = .error (.divisionByZero culprit)) ∧
    ((∀ n, s.cost n args < 2 ^ 64 → s.run n args = .ok none) ↔
      ∀ limit < 2 ^ 64, f.run limit args = .error (.stepLimitExceeded limit)) ∧
    (∀ n, s.run n args ≠ .error .stuck) ∧
    ∀ n values limit o, s.run n args = .ok (some values) → f.run limit args = .ok o →
      o.steps = s.cost n args := by
  obtain ⟨-, -, labels, h⟩ := exists_translates_of_emit hc hemit
  have hsteps : ∀ n values limit o, s.run n args = .ok (some values) →
      f.run limit args = .ok o → o.steps = s.cost n args :=
    fun _ _ _ _ hrun ho => steps_eq_cost h hargs hrun ho
  obtain ⟨st, m, hrun, hcost, hmachine, hsim⟩ := exists_runs h hargs
  simp only [hrun, hcost, hmachine] at hsteps ⊢
  exact ⟨fun _ => h.returns_iff hsim _, h.divides_iff hsim _, h.runs_on_iff hsim _,
    h.not_stuck hsim, hsteps⟩

/-- The function of Euclid's algorithm finds a common divisor, and fails on a zero divisor. -/
theorem euclid_emitted_runs :
    ∃ f, euclid.emit .default {} = .ok f ∧
      (∃ limit o, limit < 2 ^ 64 ∧ f.run limit [.u32 12, .u32 18] = .ok o ∧
        o.returns = [.u32 6]) ∧
      ∃ limit culprit, limit < 2 ^ 64 ∧
        f.run limit [.u32 12, .u32 0] = .error (.divisionByZero culprit) := by
  obtain ⟨f, hf⟩ := exists_emit_of_wellFormed (c := {}) rfl euclid_wellFormed
  have hreturns : euclid.run 30 [.u32 12, .u32 18] = .ok (some [.u32 6]) ∧
      euclid.cost 30 [.u32 12, .u32 18] < 2 ^ 64 := by decide
  have hdivides : euclid.run 30 [.u32 12, .u32 0] = .error .divisionByZero ∧
      euclid.cost 30 [.u32 12, .u32 0] < 2 ^ 64 := by decide
  refine ⟨f, hf, ?_, ?_⟩
  · exact ((emit_preserves_meaning euclid {} rfl f hf _ rfl).1 _).mp ⟨30, hreturns⟩
  · exact (emit_preserves_meaning euclid {} rfl f hf _ rfl).2.1.mp ⟨30, hdivides⟩

/-- A loop that takes one from an element until it is zero. -/
def countdown : Source where
  name := "countdown"
  params := [(⟨0⟩, .felt252)]
  returns := [.felt252]
  ops :=
    [.branch ⟨0⟩ [⟨0⟩],
      .label ⟨0⟩ [(⟨1⟩, .felt252)],
      .dup .felt252 ⟨1⟩ ⟨2⟩ ⟨3⟩,
      .call "felt252_is_zero" [⟨2⟩] [⟨4⟩],
      .const ⟨5⟩ (.felt .one),
      .call "felt252_sub" [⟨3⟩, ⟨5⟩] [⟨6⟩],
      .storeTemp .felt252 ⟨6⟩ ⟨7⟩,
      .condBranch ⟨4⟩ ⟨1⟩ [] ⟨0⟩ [⟨7⟩],
      .label ⟨1⟩ [],
      .const ⟨8⟩ (.felt .zero),
      .storeTemp .felt252 ⟨8⟩ ⟨9⟩,
      .ret [⟨9⟩]]

def countdownLayout : Layout where
  entry := ⟨[(⟨0⟩, .felt252)], [], .branch ⟨0⟩ [⟨0⟩]⟩
  labelled :=
    [(⟨0⟩, ⟨[(⟨1⟩, .felt252)],
        [.dup .felt252 ⟨1⟩ ⟨2⟩ ⟨3⟩,
          .call "felt252_is_zero" [⟨2⟩] [⟨4⟩],
          .const ⟨5⟩ (.felt .one),
          .call "felt252_sub" [⟨3⟩, ⟨5⟩] [⟨6⟩],
          .storeTemp .felt252 ⟨6⟩ ⟨7⟩],
        .condBranch ⟨4⟩ ⟨1⟩ [] ⟨0⟩ [⟨7⟩]⟩),
      (⟨1⟩, ⟨[], [.const ⟨8⟩ (.felt .zero), .storeTemp .felt252 ⟨8⟩ ⟨9⟩], .ret [⟨9⟩]⟩)]

theorem countdown_wellFormed : countdown.WellFormed := by
  have hloop : countdownLayout.Reached ⟨0⟩ := .entry (by decide)
  have hdone : countdownLayout.Reached ⟨1⟩ := hloop.next List.mem_cons_self (by decide)
  refine ⟨countdownLayout, by decide, ?_⟩
  intro l hl
  rcases List.mem_cons.mp hl with rfl | hl
  · exact hloop
  · rw [List.mem_singleton.mp hl]
    exact hdone

/-- The loop at an element. -/
def countdownAt (x : Felt) : SourceState :=
  ⟨countdown.ops.drop 2, [(⟨1⟩, .felt x)]⟩

/-- The end of the loop: the element is tested, and the next one is stored. -/
def countdownTested (x : Felt) : SourceState :=
  ⟨countdown.ops.drop 7, [(⟨7⟩, .felt (x - .one)), (⟨6⟩, .felt (x - .one)), (⟨5⟩, .felt .one),
    (⟨4⟩, .bool x.isZero), (⟨3⟩, .felt x), (⟨2⟩, .felt x), (⟨1⟩, .felt x)]⟩

theorem countdown_goes_on {x : Felt} (hx : x.isZero = false) (budget : Nat) :
    countdown.runFrom (budget + 6) (countdownAt x) =
        countdown.runFrom budget (countdownAt (x - .one)) ∧
      countdown.costFrom (budget + 6) (countdownAt x) =
        countdown.costFrom budget (countdownAt (x - .one)) + 7 := by
  have hback : countdown.step (countdownTested x) = .ok (.inl (countdownAt (x - .one))) := by
    rw [countdownTested, hx]
    rfl
  have hrun : countdown.runFrom (budget + 6) (countdownAt x) =
      countdown.runFrom (budget + 1) (countdownTested x) := rfl
  have hcost : countdown.costFrom (budget + 6) (countdownAt x) =
      1 + (2 + (1 + (1 + (1 + countdown.costFrom (budget + 1) (countdownTested x))))) := rfl
  have hlast : countdown.costFrom (budget + 1) (countdownTested x) =
      1 + countdown.costFrom budget (countdownAt (x - .one)) := by
    rw [costFrom, hback]
    rfl
  refine ⟨?_, by omega⟩
  rw [hrun, runFrom, hback]

theorem countdown_returns {n : Nat} (hn : n < prime) :
    countdown.runFrom (6 * n + 9) (countdownAt (.ofNat n)) = .ok (some [.felt .zero]) ∧
      countdown.costFrom (6 * n + 9) (countdownAt (.ofNat n)) = 7 * n + 10 := by
  induction n with
  | zero => decide
  | succ n ih =>
      have hx : (Felt.ofNat (n + 1)).isZero = false := by
        rw [← Bool.not_eq_true, Felt.isZero_iff, Felt.toInt_ofNat hn]
        omega
      obtain ⟨hrun, hcost⟩ := countdown_goes_on hx (6 * n + 9)
      rw [Felt.ofNat_succ_sub_one hn] at hrun hcost
      obtain ⟨ihrun, ihcost⟩ := ih (Nat.lt_of_succ_lt hn)
      have hbudget : 6 * (n + 1) + 9 = 6 * n + 9 + 6 := by omega
      rw [hbudget, hrun, hcost, ihcost]
      exact ⟨ihrun, by omega⟩

theorem countdown_run {n : Nat} (hn : n < prime) :
    countdown.run (6 * n + 10) [.felt (.ofNat n)] = .ok (some [.felt .zero]) ∧
      countdown.cost (6 * n + 10) [.felt (.ofNat n)] = 7 * n + 11 := by
  obtain ⟨hrun, hcost⟩ := countdown_returns hn
  have hfirst : countdown.cost (6 * n + 10) [.felt (.ofNat n)] =
      1 + countdown.costFrom (6 * n + 9) (countdownAt (.ofNat n)) := rfl
  exact ⟨hrun, by omega⟩

/-- A run of more steps than any limit of 64 bits allows: the direct execution returns, but the
emitted function exceeds every limit. -/
theorem countdown_exceeds_limits :
    ∃ f, countdown.emit .default {} = .ok f ∧
      (∃ n, countdown.run n [.felt (.ofNat (2 ^ 64))] = .ok (some [.felt .zero])) ∧
      ∀ limit < 2 ^ 64,
        f.run limit [.felt (.ofNat (2 ^ 64))] = .error (.stepLimitExceeded limit) := by
  obtain ⟨f, hf⟩ := exists_emit_of_wellFormed (c := {}) rfl countdown_wellFormed
  obtain ⟨-, -, labels, htranslates⟩ := exists_translates_of_emit rfl hf
  have hlarge : 2 ^ 64 < prime := by decide
  obtain ⟨hrun, hcost⟩ := countdown_run hlarge
  refine ⟨f, hf, ⟨_, hrun⟩, fun limit hlimit => run_of_lt_cost htranslates rfl hrun ?_⟩
  rw [hcost]
  omega

end Source

end FieldSSA
