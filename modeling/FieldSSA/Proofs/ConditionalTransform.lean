import Mathlib
import FieldSSA.Proofs.Simulation
import FieldSSA.Proofs.UnusedValues
import FieldSSA.Source.ZeroTest

namespace FieldSSA

namespace Source

/-- The segments of the conditional transform: the entry, the renaming, the test, the two arms and
the block in which the arms join. -/
def conditionalLayout (k : Felt) : Layout where
  entry := ⟨[(⟨0⟩, .felt252)], [], .branch ⟨0⟩ [⟨0⟩]⟩
  labelled :=
    [(⟨0⟩, ⟨[(⟨1⟩, .felt252)], [.rename .felt252 ⟨1⟩ ⟨2⟩], .branch ⟨1⟩ [⟨2⟩]⟩),
      (⟨1⟩, ⟨[(⟨3⟩, .felt252)],
        [.dup .felt252 ⟨3⟩ ⟨4⟩ ⟨5⟩, .call "felt252_is_zero" [⟨4⟩] [⟨6⟩]],
        .condBranch ⟨6⟩ ⟨2⟩ [] ⟨3⟩ [⟨5⟩]⟩),
      (⟨2⟩, ⟨[], [.const ⟨7⟩ (.felt .zero), .storeTemp .felt252 ⟨7⟩ ⟨8⟩], .branch ⟨4⟩ [⟨8⟩]⟩),
      (⟨3⟩, ⟨[(⟨9⟩, .felt252)],
        [.const ⟨10⟩ (.felt k), .call "felt252_mul" [⟨9⟩, ⟨10⟩] [⟨11⟩],
          .storeTemp .felt252 ⟨11⟩ ⟨12⟩],
        .branch ⟨4⟩ [⟨12⟩]⟩),
      (⟨4⟩, ⟨[(⟨13⟩, .felt252)], [.rename .felt252 ⟨13⟩ ⟨14⟩], .ret [⟨14⟩]⟩)]

/-- The conditional transform, written out. -/
def conditionalSource (name : String) (k : Felt) : Source :=
  ⟨name, [(⟨0⟩, .felt252)], [.felt252], (conditionalLayout k).ops⟩

variable (name : String) (k : Felt)

theorem conditionalTransform_eq : conditionalTransform name k = conditionalSource name k := by
  cbv

theorem conditionalSource_laidOut : (conditionalSource name k).LaidOut (conditionalLayout k) :=
  ⟨rfl, rfl, of_decide_eq_true rfl, of_decide_eq_true rfl, of_decide_eq_true rfl⟩

theorem conditionalSource_wellFormed : (conditionalSource name k).WellFormed := by
  have hrename : (conditionalLayout k).Reached ⟨0⟩ := .entry (.head _)
  have htest : (conditionalLayout k).Reached ⟨1⟩ := hrename.next (.head _) (.head _)
  have hzero : (conditionalLayout k).Reached ⟨2⟩ := htest.next (.tail _ (.head _)) (.head _)
  have hnonzero : (conditionalLayout k).Reached ⟨3⟩ :=
    htest.next (.tail _ (.head _)) (.tail _ (.head _))
  have hjoin : (conditionalLayout k).Reached ⟨4⟩ :=
    hzero.next (.tail _ (.tail _ (.head _))) (.head _)
  refine ⟨conditionalLayout k, conditionalSource_laidOut name k, ?_⟩
  intro l hl
  simp only [conditionalLayout, List.map_cons, List.map_nil, List.mem_cons, List.not_mem_nil,
    or_false] at hl
  rcases hl with rfl | rfl | rfl | rfl | rfl
  exacts [hrename, htest, hzero, hnonzero, hjoin]

theorem conditionalSource_readsAll :
    (conditionalSource name k).ReadsAll (conditionalLayout k).entry ∧
      ∀ p ∈ (conditionalLayout k).labelled, (conditionalSource name k).ReadsAll p.2 :=
  of_decide_eq_true rfl

/-- The direct execution tests its argument and takes one of the arms. -/
theorem conditionalSource_run (v : Felt) :
    (conditionalSource name k).run 12 [.felt v] =
      .ok (some [.felt (if v.isZero then .zero else v * k)]) := by
  have htest : (conditionalSource name k).run 12 [.felt v] =
      (conditionalSource name k).runFrom 7 ⟨(conditionalLayout k).ops.drop 7,
        [(⟨6⟩, .bool v.isZero), (⟨5⟩, .felt v), (⟨4⟩, .felt v), (⟨3⟩, .felt v)]⟩ := rfl
  rw [htest]
  cases v.isZero <;> rfl

/-- The conditional transform is emitted and verified without an error or a warning, and for every
argument it returns zero on zero and the product with the multiplier otherwise. -/
theorem conditionalTransform_correct :
    ∃ f, (conditionalTransform name k).compile = .ok f ∧ f.verify = ⟨[], []⟩ ∧
      ∀ v : Felt, f.call [.felt v] = .ok [.felt (if v.isZero then .zero else v * k)] := by
  rw [conditionalTransform_eq]
  obtain ⟨f, hf⟩ := exists_emit_of_wellFormed (c := {}) rfl (conditionalSource_wellFormed name k)
  obtain ⟨hentry, hlabelled⟩ := conditionalSource_readsAll name k
  obtain ⟨-, -, labels, htranslates⟩ := exists_translates_of_emit rfl hf
  refine ⟨f, hf, ?_, fun v => ?_⟩
  · exact verify_eq_of_readsAll (conditionalSource_laidOut name k) hentry hlabelled hf
  · have hlimit : 2 * 12 ≤ Function.defaultLimit := by decide
    obtain ⟨o, ho, hreturns⟩ :=
      exists_run_of_run htranslates rfl (conditionalSource_run name k v) hlimit
    rw [Function.call, ho, ← hreturns]
    rfl

end Source

end FieldSSA
