import FieldSSA.Proofs.Drafting
import FieldSSA.Proofs.Simulation
import FieldSSA.Proofs.StreamPoints
import FieldSSA.Source.Term

namespace FieldSSA

namespace FeltTerm

/-- The operations of a stored constant. -/
def constOps (k : Felt) (x : Nat) : List Op :=
  [.const ⟨x⟩ (.felt k), .storeTemp .felt252 ⟨x⟩ ⟨x + 1⟩]

/-- The operations of a stored result of a libfunc on a variable and a constant. -/
def withOps (libfunc : String) (k : Felt) (v : Var) (x : Nat) : List Op :=
  [.const ⟨x⟩ (.felt k), .call libfunc [v, ⟨x⟩] [⟨x + 1⟩],
    .storeTemp .felt252 ⟨x + 1⟩ ⟨x + 2⟩]

/-- The operations of a zero test up to its nonzero arm. -/
def testOps (onZero : Felt) (v : Var) (x l : Nat) : List Op :=
  [.dup .felt252 v ⟨x⟩ ⟨x + 1⟩, .call "felt252_is_zero" [⟨x⟩] [⟨x + 2⟩],
    .condBranch ⟨x + 2⟩ ⟨l⟩ [] ⟨l + 1⟩ [⟨x + 1⟩], .label ⟨l⟩ []] ++
  constOps onZero (x + 3) ++
  [.branch ⟨l + 2⟩ [⟨x + 4⟩], .label ⟨l + 1⟩ [(⟨x + 5⟩, .felt252)]]

/-- The operations of a zero test after its nonzero arm. -/
def joinOps (result : Var) (x l : Nat) : List Op :=
  [.branch ⟨l + 2⟩ [result], .label ⟨l + 2⟩ [(⟨x⟩, .felt252)], .rename .felt252 ⟨x⟩ ⟨x + 1⟩]

/-- The number of variables of a term before its result. -/
def scratch : FeltTerm → Nat
  | const _ => 1
  | scale _ | offset _ => 2
  | seq first second => first.scratch + 1 + second.scratch
  | ifZero _ onNonzero => 6 + onNonzero.scratch + 2

def labelCount : FeltTerm → Nat
  | const _ | scale _ | offset _ => 0
  | seq first second => first.labelCount + second.labelCount
  | ifZero _ onNonzero => 3 + onNonzero.labelCount

/-- The operations of a term on a variable, with variables numbered from `x` and labels from
`l`. -/
def ops : FeltTerm → Var → (x l : Nat) → List Op
  | const k, _, x, _ => constOps k x
  | scale k, v, x, _ => withOps "felt252_mul" k v x
  | offset k, v, x, _ => withOps "felt252_add" k v x
  | seq first second, v, x, l =>
      first.ops v x l ++
        second.ops ⟨x + first.scratch⟩ (x + first.scratch + 1) (l + first.labelCount)
  | ifZero onZero onNonzero, v, x, l =>
      testOps onZero v x l ++ (onNonzero.ops ⟨x + 5⟩ (x + 6) (l + 3) ++
        joinOps ⟨x + 6 + onNonzero.scratch⟩ (x + 6 + onNonzero.scratch + 1) l)

theorem draftConst_apply (k : Felt) (d : Draft) :
    draftConst k d = (⟨d.nextVar + 1⟩, d.extended (constOps k d.nextVar) 2 0) := by
  simp [draftConst, Drafting.bind_apply, Draft.const_apply, Draft.storeTemp_apply, constOps]

theorem draftWith_apply (libfunc : String) (k : Felt) (v : Var) (d : Draft) :
    draftWith libfunc k v d =
      (⟨d.nextVar + 2⟩, d.extended (withOps libfunc k v d.nextVar) 3 0) := by
  simp [draftWith, Drafting.bind_apply, Draft.const_apply, Draft.callOne_apply,
    Draft.storeTemp_apply, withOps]

/-- Drafting a term adds its operations; its result is the last variable that it takes. -/
theorem draft_apply (t : FeltTerm) (v : Var) (d : Draft) :
    t.draft v d = (⟨d.nextVar + t.scratch⟩,
      d.extended (t.ops v d.nextVar d.nextLabel) (t.scratch + 1) t.labelCount) := by
  induction t generalizing v d with
  | const k => exact draftConst_apply k d
  | scale k => exact draftWith_apply _ k v d
  | offset k => exact draftWith_apply _ k v d
  | seq first second ihFirst ihSecond =>
      rw [draft, Drafting.bind_apply, ihFirst, ihSecond]
      simp [ops, scratch, labelCount, Nat.add_assoc]
  | ifZero onZero onNonzero ih =>
      simp only [draft, Draft.ifZero, ZeroTest.begin, ZeroTest.otherwise, ZeroTest.finish,
        Drafting.bind_apply, Drafting.pure_apply, Draft.label_apply, Draft.dup_apply,
        Draft.callOne_apply, Draft.condBranch_apply, Draft.place_nil_apply, Draft.branch_apply,
        Draft.placeOne_apply, Draft.rename_apply, draftConst_apply, ih, Draft.extended_extended,
        Draft.nextVar_extended, Draft.nextLabel_extended]
      simp [ops, testOps, joinOps, scratch, labelCount, Nat.add_assoc]

end FeltTerm

namespace Source

/-- A part of the stream computes a function of a stored field element. It is in order at any place
where the element can be read, it ends inside a segment with its result stored, all labels that it
places are targets, and control goes through it in at most as many operations as it has. -/
structure Computes (s : Source) (part rest : List Op) (v w : Var) (x x' : Nat) (φ : Felt → Felt) :
    Prop where
  passes : ∀ g, g.Has x [(v, .felt252)] [v] → s.Inside g (part ++ rest) →
    (∃ g', s.Inside g' rest ∧ g'.Has x' [(w, .felt252)] [w]) ∧
      ∀ l ∈ placedLabels part, s.Targeted l
  runs : ∀ scope a, scope.lookup v = some (.felt a) →
    ∃ n scope', n ≤ part.length ∧ s.Goes n ⟨part ++ rest, scope⟩ ⟨rest, scope'⟩ ∧
      scope'.lookup w = some (.felt (φ a))

theorem Computes.seq {s : Source} {part part' rest : List Op} {u v w : Var} {x y z : Nat}
    {φ ψ : Felt → Felt}
    (h : s.Computes part (part' ++ rest) u v x y φ) (h' : s.Computes part' rest v w y z ψ) :
    s.Computes (part ++ part') rest u w x z fun a => ψ (φ a) := by
  constructor
  · intro g hg hp
    rw [List.append_assoc] at hp
    obtain ⟨⟨g₁, hp₁, hg₁⟩, htargeted⟩ := h.passes g hg hp
    obtain ⟨hpasses, htargeted'⟩ := h'.passes g₁ hg₁ hp₁
    refine ⟨hpasses, ?_⟩
    rw [placedLabels, List.filterMap_append]
    exact List.forall_mem_append.mpr ⟨htargeted, htargeted'⟩
  · intro scope a ha
    obtain ⟨n, scope₁, hn, hgoes, hb⟩ := h.runs scope a ha
    obtain ⟨k, scope₂, hk, hgoes', hc⟩ := h'.runs scope₁ (φ a) hb
    rw [List.append_assoc, List.length_append]
    exact ⟨n + k, scope₂, Nat.add_le_add hn hk, hgoes.trans hgoes', hc⟩

end Source

namespace FeltTerm

variable {s : Source} {g : Ledger} {x l : Nat} {rest : List Op} {scope : List (Var × Scalar)}

theorem passes_const {k : Felt} (hg : g.Has x [] [])
    (hp : s.Inside g (constOps k x ++ rest)) :
    ∃ g', s.Inside g' rest ∧ g'.Has (x + 2) [(⟨x + 1⟩, .felt252)] [⟨x + 1⟩] := by
  obtain ⟨g₁, hp₁, hg₁⟩ := hp.call [] hg rfl rfl rfl
  exact hp₁.call [] hg₁ rfl rfl rfl

theorem goes_const (k : Felt) : s.Goes 2 ⟨constOps k x ++ rest, scope⟩
    ⟨rest, (⟨x + 1⟩, .felt k) :: (⟨x⟩, .felt k) :: scope⟩ :=
  .head rfl (.single (Source.step_storeTemp (by simp)))

theorem computes_const (k : Felt) (v : Var) :
    s.Computes (constOps k x) rest v ⟨x + 1⟩ x (x + 2) fun _ => k := by
  constructor
  · intro g hg hp
    refine ⟨passes_const (hg.weaken List.nil_subperm (List.nil_subset _)) hp, ?_⟩
    simp [constOps, placedLabels, Op.placed?]
  · intro scope a _
    exact ⟨2, _, Nat.le_refl 2, goes_const k, by simp⟩

theorem computes_with {libfunc : String} {callee : Intrinsic} {φ : Felt → Felt} (k : Felt) (v : Var)
    (hlookup : Recipe.builtin.lookup libfunc = some (.helper callee))
    (hparams : callee.params = [.felt252, .felt252]) (hresults : callee.results = [.felt252])
    (heval : ∀ a, evalLibfunc libfunc [.felt a, .felt k] = .ok [.felt (φ a)])
    (hv : v.index < x) :
    s.Computes (withOps libfunc k v x) rest v ⟨x + 2⟩ x (x + 3) φ := by
  constructor
  · intro g hg hp
    have hcall : (Op.call libfunc [v, ⟨x⟩] [⟨x + 1⟩]).asCall? =
        some (.helper callee, [v, ⟨x⟩], [⟨x + 1⟩]) := by
      simp [Op.asCall?, hlookup]
    obtain ⟨g₁, hp₁, hg₁⟩ := hp.call [(v, .felt252)] hg rfl rfl rfl
    have hg₁ : g₁.Has (x + 1) ([v, ⟨x⟩].zip (Recipe.helper callee).params ++ []) [] := by
      simp only [Recipe.params, hparams]
      exact hg₁.weaken (List.Perm.swap _ _ _).subperm (List.nil_subset _)
    obtain ⟨g₂, hp₂, hg₂⟩ := hp₁.call [] hg₁ hcall (by simp [Recipe.params, hparams])
      (by simp [Recipe.results, hresults, newVars])
    simp only [Recipe.results, hresults] at hg₂
    obtain ⟨g₃, hp₃, hg₃⟩ := hp₂.call [] hg₂ rfl rfl rfl
    refine ⟨⟨g₃, hp₃, hg₃⟩, ?_⟩
    simp [withOps, placedLabels, Op.placed?]
  · intro scope a ha
    have hne : (v == ⟨x⟩) = false := by
      simp only [beq_eq_false_iff_ne]
      rintro rfl
      exact Nat.lt_irrefl x hv
    have hlooks : Source.Looks ((⟨x⟩, .felt k) :: scope) [v, ⟨x⟩] [.felt a, .felt k] := by
      simp [Source.Looks, List.lookup_cons, hne, ha]
    have hstored : s.Goes 3 ⟨withOps libfunc k v x ++ rest, scope⟩
        ⟨rest, (⟨x + 2⟩, .felt (φ a)) :: (⟨x + 1⟩, .felt (φ a)) :: (⟨x⟩, .felt k) :: scope⟩ :=
      .head rfl (.head (Source.step_call hlooks (heval a) rfl)
        (.single (Source.step_storeTemp (by simp))))
    exact ⟨3, _, Nat.le_refl 3, hstored, by simp⟩

section IfZero

variable {k : Felt} {v r : Var} {y : Nat}

theorem passes_test (hlabels : (placedLabels s.ops).Nodup) (hzero : s.labelTypes? ⟨l⟩ = some [])
    (hnonzero : s.labelTypes? ⟨l + 1⟩ = some [.felt252])
    (hjoin : s.labelTypes? ⟨l + 2⟩ = some [.felt252]) (hg : g.Has x [(v, .felt252)] [v])
    (hp : s.Inside g (testOps k v x l ++ rest)) :
    (∃ g', s.Inside g' rest ∧ g'.Has (x + 6) [(⟨x + 5⟩, .felt252)] [⟨x + 5⟩]) ∧
      s.Targeted ⟨l⟩ ∧ s.Targeted ⟨l + 1⟩ ∧ s.Targeted ⟨l + 2⟩ := by
  -- the value is copied, one copy is tested, and the other leaves with the branch
  obtain ⟨g₁, hp₁, hg₁⟩ := hp.call [] hg rfl rfl rfl
  obtain ⟨g₂, hp₂, hg₂⟩ := hp₁.call [(⟨x + 1⟩, .felt252)] hg₁ rfl rfl rfl
  have hreads : s.reads (.condBranch ⟨x + 2⟩ ⟨l⟩ [] ⟨l + 1⟩ [⟨x + 1⟩]) =
      [(⟨x + 2⟩, .bool), (⟨x + 1⟩, .felt252)] := by
    simp [Source.reads, hzero, hnonzero]
  have hg₂ : g₂.Has (x + 3) [(⟨x + 2⟩, .bool), (⟨x + 1⟩, .felt252)] [⟨x + 1⟩] :=
    hg₂.weaken (List.Subperm.refl _) (by simp [Op.stores])
  obtain ⟨hb, htargeted⟩ := hp₂.close rfl ⟨⟨_, hzero, rfl⟩, _, hnonzero, rfl⟩ (hreads ▸ hg₂)
  -- the zero arm stores the constant and goes to the join
  have hp₃ := hb.opens hlabels (htargeted _ (.head _)) List.nodup_nil
  have hg₃ : (Ledger.ofParams []).Has (x + 3) [] [] := Ledger.has_ofParams (by simp) (by simp)
  obtain ⟨g₄, hp₄, hg₄⟩ := passes_const hg₃ hp₃
  obtain ⟨hb', htargeted'⟩ := hp₄.branch hjoin rfl hg₄
  have hp₅ := hb'.opens hlabels (htargeted _ (.tail _ (.head _))) (List.nodup_singleton _)
  refine ⟨⟨_, hp₅, Ledger.has_ofParams (by simp) (by simp)⟩, ?_⟩
  exact ⟨htargeted _ (.head _), htargeted _ (.tail _ (.head _)), htargeted'⟩

theorem passes_join (hlabels : (placedLabels s.ops).Nodup)
    (hjoin : s.labelTypes? ⟨l + 2⟩ = some [.felt252]) (hg : g.Has y [(r, .felt252)] [r])
    (hp : s.Inside g (joinOps r y l ++ rest)) :
    ∃ g', s.Inside g' rest ∧ g'.Has (y + 2) [(⟨y + 1⟩, .felt252)] [⟨y + 1⟩] := by
  obtain ⟨hb, htargeted⟩ := hp.branch hjoin rfl hg
  have hp₁ := hb.opens hlabels htargeted (List.nodup_singleton _)
  have hg₁ : (Ledger.ofParams [(⟨y⟩, .felt252)]).Has (y + 1) [(⟨y⟩, .felt252)] [⟨y⟩] :=
    Ledger.has_ofParams (by simp) (by simp)
  obtain ⟨g₂, hp₂, hg₂⟩ := hp₁.call [] hg₁ rfl rfl rfl
  exact ⟨g₂, hp₂, hg₂.weaken (List.Subperm.refl _) (by simp [Op.stores])⟩

theorem goes_tested {a : Felt} (hv : scope.lookup v = some (.felt a)) :
    s.Goes 2 ⟨testOps k v x l ++ rest, scope⟩ ⟨(testOps k v x l).drop 2 ++ rest,
      (⟨x + 2⟩, .bool a.isZero) :: (⟨x + 1⟩, .felt a) :: (⟨x⟩, .felt a) :: scope⟩ := by
  have hne : (Var.mk x == ⟨x + 1⟩) = false := by simp
  have hlooks : Source.Looks ((⟨x + 1⟩, .felt a) :: (⟨x⟩, .felt a) :: scope) [⟨x⟩] [.felt a] := by
    simp [Source.Looks, List.lookup_cons, hne]
  have heval : evalLibfunc "felt252_is_zero" [.felt a] = .ok [.bool a.isZero] := rfl
  exact .head (Source.step_dup hv) (.single (Source.step_call hlooks heval rfl))

theorem goes_zero {more ahead : List Op}
    (hzero : Source.findLabel ⟨l⟩ s.ops =
      some ([], constOps k (x + 3) ++ .branch ⟨l + 2⟩ [⟨x + 4⟩] :: more))
    (hjoin : Source.findLabel ⟨l + 2⟩ s.ops = some ([(⟨y⟩, .felt252)], ahead))
    (hv : scope.lookup v = some (.felt .zero)) :
    s.Goes 6 ⟨testOps k v x l ++ rest, scope⟩ ⟨ahead, [(⟨y⟩, .felt k)]⟩ := by
  have hstored : Source.Looks [(⟨x + 4⟩, .felt k), (⟨x + 3⟩, .felt k)] [⟨x + 4⟩] [.felt k] :=
    .cons (by simp) .nil
  have harm : s.Goes 3 ⟨constOps k (x + 3) ++ .branch ⟨l + 2⟩ [⟨x + 4⟩] :: more, []⟩
      ⟨ahead, [(⟨y⟩, .felt k)]⟩ :=
    (goes_const k).trans (.single (Source.step_branch hstored hjoin rfl))
  refine (goes_tested hv).trans (.head ?_ harm)
  exact (Source.step_condBranch true (by simp [Felt.isZero])).trans
    (Source.step_branch .nil hzero rfl)

theorem goes_nonzero {a : Felt}
    (hnonzero : Source.findLabel ⟨l + 1⟩ s.ops = some ([(⟨x + 5⟩, .felt252)], rest))
    (hv : scope.lookup v = some (.felt a)) (ha : a ≠ .zero) :
    s.Goes 3 ⟨testOps k v x l ++ rest, scope⟩ ⟨rest, [(⟨x + 5⟩, .felt a)]⟩ := by
  have hne : (Var.mk (x + 1) == ⟨x + 2⟩) = false := by simp
  have hisZero : a.isZero = false := by simpa [Felt.isZero] using ha
  refine (goes_tested hv).trans (.single ?_)
  rw [hisZero]
  refine (Source.step_condBranch false (by simp)).trans
    (Source.step_branch (.cons ?_ .nil) hnonzero rfl)
  simp [List.lookup_cons, hne]

/-- The labels of a zero test are found where they stand. -/
theorem findLabel_ifZero {arm : List Op} (hlabels : (placedLabels s.ops).Nodup)
    (hsuffix : testOps k v x l ++ (arm ++ (joinOps r y l ++ rest)) <:+ s.ops) :
    Source.findLabel ⟨l⟩ s.ops = some ([], constOps k (x + 3) ++ .branch ⟨l + 2⟩ [⟨x + 4⟩] ::
        .label ⟨l + 1⟩ [(⟨x + 5⟩, .felt252)] :: (arm ++ (joinOps r y l ++ rest))) ∧
      Source.findLabel ⟨l + 1⟩ s.ops =
        some ([(⟨x + 5⟩, .felt252)], arm ++ (joinOps r y l ++ rest)) ∧
      Source.findLabel ⟨l + 2⟩ s.ops =
        some ([(⟨y⟩, .felt252)], .rename .felt252 ⟨y⟩ ⟨y + 1⟩ :: rest) := by
  have hjoin : joinOps r y l ++ rest <:+ s.ops :=
    (List.suffix_append arm _).trans ((List.suffix_append _ _).trans hsuffix)
  refine ⟨?_, ?_, ?_⟩
  · exact Source.findLabel_of_suffix hlabels
      ((List.suffix_append ((testOps k v x l).take 3) _).trans hsuffix)
  · exact Source.findLabel_of_suffix hlabels
      ((List.suffix_append ((testOps k v x l).take 7) _).trans hsuffix)
  · exact Source.findLabel_of_suffix hlabels
      ((List.suffix_append ((joinOps r y l).take 1) _).trans hjoin)

theorem computes_ifZero {arm : List Op} {φ : Felt → Felt} (hlabels : (placedLabels s.ops).Nodup)
    (hsuffix : testOps k v x l ++ (arm ++ joinOps r y l) ++ rest <:+ s.ops)
    (harm : s.Computes arm (joinOps r y l ++ rest) ⟨x + 5⟩ r (x + 6) y φ) :
    s.Computes (testOps k v x l ++ (arm ++ joinOps r y l)) rest v ⟨y + 1⟩ x (y + 2)
      fun a => if a = .zero then k else φ a := by
  have happend : testOps k v x l ++ (arm ++ joinOps r y l) ++ rest =
      testOps k v x l ++ (arm ++ (joinOps r y l ++ rest)) := by
    rw [List.append_assoc, List.append_assoc]
  obtain ⟨hzero, hnonzero, hjoin⟩ := findLabel_ifZero hlabels (happend ▸ hsuffix)
  constructor
  · intro g hg hp
    rw [happend] at hp
    have htypes : s.labelTypes? ⟨l + 2⟩ = some [.felt252] := by simp [Source.labelTypes?, hjoin]
    obtain ⟨⟨g₁, hp₁, hg₁⟩, htargeted⟩ := passes_test hlabels (by simp [Source.labelTypes?, hzero])
      (by simp [Source.labelTypes?, hnonzero]) htypes hg hp
    obtain ⟨⟨g₂, hp₂, hg₂⟩, htargeted'⟩ := harm.passes g₁ hg₁ hp₁
    refine ⟨passes_join hlabels htypes hg₂ hp₂, ?_⟩
    have hplaced : placedLabels (testOps k v x l ++ (arm ++ joinOps r y l)) =
        ⟨l⟩ :: ⟨l + 1⟩ :: (placedLabels arm ++ [⟨l + 2⟩]) := by
      simp only [placedLabels, List.filterMap_append]
      rfl
    simp only [hplaced, List.forall_mem_cons, List.forall_mem_append]
    exact ⟨htargeted.1, htargeted.2.1, htargeted', htargeted.2.2, by simp⟩
  · intro scope a ha
    rw [happend]
    have hlen : (testOps k v x l ++ (arm ++ joinOps r y l)).length = arm.length + 11 := by
      simp only [List.length_append, testOps, joinOps, constOps, List.length_cons, List.length_nil]
      omega
    have hrenamed (b : Felt) : s.Goes 1 ⟨.rename .felt252 ⟨y⟩ ⟨y + 1⟩ :: rest, [(⟨y⟩, .felt b)]⟩
        ⟨rest, [(⟨y + 1⟩, .felt b), (⟨y⟩, .felt b)]⟩ :=
      .single (Source.step_rename (by simp))
    by_cases hisZero : a = .zero
    · subst hisZero
      exact ⟨7, _, by omega, (goes_zero hzero hjoin ha).trans (hrenamed k), by simp⟩
    · obtain ⟨n, scope₁, hn, hgoes, hr⟩ := harm.runs [(⟨x + 5⟩, .felt a)] a (by simp)
      have hjoined : s.Goes 2 ⟨joinOps r y l ++ rest, scope₁⟩ _ :=
        .head (Source.step_branch (.cons hr .nil) hjoin rfl) (hrenamed (φ a))
      refine ⟨3 + n + 2, _, by omega,
        ((goes_nonzero hnonzero ha hisZero).trans hgoes).trans hjoined, ?_⟩
      simp [hisZero]

end IfZero

/-- A term computes its function at any place where its operations stand. -/
theorem computes_ops (t : FeltTerm) {v : Var} (hlabels : (placedLabels s.ops).Nodup)
    (hv : v.index < x) (hsuffix : t.ops v x l ++ rest <:+ s.ops) :
    s.Computes (t.ops v x l) rest v ⟨x + t.scratch⟩ x (x + t.scratch + 1) t.eval := by
  induction t generalizing v x l rest with
  | const k => exact computes_const k v
  | scale k => exact computes_with k v rfl rfl rfl (fun _ => rfl) hv
  | offset k => exact computes_with k v rfl rfl rfl (fun _ => rfl) hv
  | seq first second ihFirst ihSecond =>
      rw [ops, List.append_assoc] at hsuffix
      have hfirst := ihFirst hv hsuffix
      have hsecond := ihSecond (Nat.lt_succ_self _) ((List.suffix_append _ _).trans hsuffix)
      have hscratch : x + (seq first second).scratch =
          x + first.scratch + 1 + second.scratch := by
        simp only [scratch]
        omega
      rw [hscratch]
      exact hfirst.seq hsecond
  | ifZero k onNonzero ih =>
      have harm : onNonzero.ops ⟨x + 5⟩ (x + 6) (l + 3) ++ (joinOps ⟨x + 6 + onNonzero.scratch⟩
          (x + 6 + onNonzero.scratch + 1) l ++ rest) <:+ s.ops := by
        rw [ops, List.append_assoc, List.append_assoc] at hsuffix
        exact (List.suffix_append _ _).trans hsuffix
      have hscratch : x + (ifZero k onNonzero).scratch = x + 6 + onNonzero.scratch + 1 + 1 := by
        simp only [scratch]
        omega
      rw [hscratch]
      exact computes_ifZero hlabels hsuffix (ih (Nat.lt_succ_self _) harm)

/-- A term places the labels that it takes. -/
theorem placedLabels_ops_perm (t : FeltTerm) (v : Var) (x l : Nat) :
    (placedLabels (t.ops v x l)).Perm ((List.range' l t.labelCount).map Label.mk) := by
  induction t generalizing v x l with
  | const | scale | offset => rfl
  | seq first second ihFirst ihSecond =>
      rw [ops, placedLabels, List.filterMap_append, labelCount, ← List.range'_append_1,
        List.map_append]
      exact (ihFirst v x l).append (ihSecond _ _ _)
  | ifZero k onNonzero ih =>
      have hrange : (List.range' l (3 + onNonzero.labelCount)).map Label.mk =
          ⟨l⟩ :: ⟨l + 1⟩ :: ⟨l + 2⟩ :: (List.range' (l + 3) onNonzero.labelCount).map Label.mk := by
        rw [← List.range'_append_1]
        rfl
      simp only [ops, placedLabels, List.filterMap_append, labelCount, hrange]
      refine .cons _ (.cons _ ?_)
      exact List.perm_append_singleton _ _ |>.trans ((ih _ _ _).cons _)

theorem source_eq (t : FeltTerm) (name : String) :
    t.source name = ⟨name, [(⟨0⟩, .felt252)], [.felt252],
      t.ops ⟨0⟩ 1 0 ++ [.ret [⟨1 + t.scratch⟩]]⟩ := by
  simp only [source, Drafting.source, StateT.run, Drafting.bind_apply, draft_apply, Draft.ret_apply]
  rfl

section Correctness

variable (t : FeltTerm) (name : String)

theorem placedLabels_source :
    placedLabels (t.source name).ops = placedLabels (t.ops ⟨0⟩ 1 0) := by
  rw [source_eq, placedLabels, List.filterMap_append]
  exact List.append_nil _

theorem nodup_placedLabels_source : (placedLabels (t.source name).ops).Nodup := by
  rw [placedLabels_source, (placedLabels_ops_perm t _ _ _).nodup_iff]
  exact (List.nodup_range' 1).map fun _ _ => Label.mk.inj

theorem computes_source :
    (t.source name).Computes (t.ops ⟨0⟩ 1 0) [.ret [⟨1 + t.scratch⟩]] ⟨0⟩ ⟨1 + t.scratch⟩ 1
      (1 + t.scratch + 1) t.eval := by
  have hops : (t.source name).ops = t.ops ⟨0⟩ 1 0 ++ [.ret [⟨1 + t.scratch⟩]] := by
    rw [source_eq]
  exact computes_ops t (nodup_placedLabels_source t name) Nat.zero_lt_one
    (hops ▸ List.suffix_refl _)

theorem source_wellFormed : (t.source name).WellFormed := by
  have hstart : (t.source name).Inside (.ofParams [(⟨0⟩, .felt252)])
      (t.ops ⟨0⟩ 1 0 ++ [.ret [⟨1 + t.scratch⟩]]) := by
    simpa only [source_eq] using (t.source name).inside_start
  have hparam : (Ledger.ofParams [(⟨0⟩, .felt252)]).Has 1 [(⟨0⟩, .felt252)] [⟨0⟩] :=
    Ledger.has_ofParams (by simp) (by simp)
  obtain ⟨⟨g, hp, hg⟩, htargeted⟩ := (computes_source t name).passes _ hparam hstart
  have hreturns : (t.source name).returns = [.felt252] := by rw [source_eq]
  have hreads : (t.source name).reads (.ret [⟨1 + t.scratch⟩]) =
      [(⟨1 + t.scratch⟩, .felt252)] := by
    rw [Source.reads, hreturns]
    rfl
  obtain ⟨hend, -⟩ := hp.close rfl (by rw [Source.Fits, hreturns]; rfl) (hreads ▸ hg)
  refine Source.wellFormed_of_targeted ⟨nodup_placedLabels_source t name, ?_, ?_⟩ ?_
  · rw [source_eq]
    exact List.nodup_singleton _
  · exact hend.accepts trivial
  · rwa [placedLabels_source]

/-- The direct execution of a term returns its value, and no operation is run twice. -/
theorem exists_run_source (v : Felt) :
    ∃ n ≤ (t.source name).ops.length,
      (t.source name).run n [.felt v] = .ok (some [.felt (t.eval v)]) := by
  obtain ⟨n, scope, hn, hgoes, hresult⟩ :=
    (computes_source t name).runs [(⟨0⟩, .felt v)] v (by simp)
  have hlen : (t.source name).ops.length = (t.ops ⟨0⟩ 1 0).length + 1 := by
    rw [source_eq, List.length_append]
    rfl
  refine ⟨n + 1, by omega, ?_⟩
  have hstart : (t.source name).run (n + 1) [.felt v] = (t.source name).runFrom (n + 1)
      ⟨t.ops ⟨0⟩ 1 0 ++ [.ret [⟨1 + t.scratch⟩]], [(⟨0⟩, .felt v)]⟩ := by
    rw [source_eq]
    rfl
  rw [hstart, hgoes.runFrom_add, Source.runFrom, Source.step]
  simp [Source.readAll_of_looks (.cons hresult .nil), pure, Except.pure]

/-- A term of any depth is emitted, and for every argument the machine returns its value within
twice as many steps as the source has operations. -/
theorem compile_source_computes :
    ∃ f, (t.source name).compile = .ok f ∧
      ∀ v : Felt, ∃ enough ≤ 2 * (t.source name).ops.length, ∀ limit ≥ enough,
        ∃ o, f.run limit [.felt v] = .ok o ∧ o.returns = [.felt (t.eval v)] := by
  obtain ⟨f, hf⟩ := Source.exists_emit_of_wellFormed (c := {}) rfl (source_wellFormed t name)
  obtain ⟨-, -, labels, htranslates⟩ := Source.exists_translates_of_emit rfl hf
  have htypes (v : Felt) : [Scalar.felt v].map Scalar.ty = (t.source name).paramTypes := by
    rw [source_eq]
    rfl
  refine ⟨f, hf, fun v => ?_⟩
  obtain ⟨n, hle, hn⟩ := exists_run_source t name v
  refine ⟨2 * n, Nat.mul_le_mul_left 2 hle, fun limit hlimit => ?_⟩
  exact Source.exists_run_of_run htranslates (htypes v) hn hlimit

end Correctness

/-- A zero test after an offset in the nonzero arm of another. -/
def nested : FeltTerm :=
  ifZero (.ofNat 5) (seq (offset (.ofNat 3)) (ifZero (.ofNat 7) (scale (.ofNat 2))))

theorem compile_nested_computes :
    ∃ f, (nested.source "nested").compile = .ok f ∧
      ∀ p ∈ [(.zero, .ofNat 5), (-.ofNat 3, .ofNat 7), (.ofNat 1, .ofNat 8)],
        ∃ enough ≤ 58, ∀ limit ≥ enough,
          ∃ o, f.run limit [.felt p.1] = .ok o ∧ o.returns = [.felt p.2] := by
  obtain ⟨f, hf, hcomputes⟩ := compile_source_computes nested "nested"
  have hlen : (nested.source "nested").ops.length = 29 := by
    rw [source_eq]
    rfl
  rw [hlen] at hcomputes
  refine ⟨f, hf, ?_⟩
  simp only [List.forall_mem_cons, List.not_mem_nil, false_implies, implies_true, and_true]
  exact ⟨hcomputes _, hcomputes _, hcomputes _⟩

end FeltTerm

end FieldSSA
