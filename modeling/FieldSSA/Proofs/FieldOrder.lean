import Mathlib
import FieldSSA.Proofs.ConditionalTransform
import FieldSSA.Proofs.FieldArithmetic

namespace FieldSSA

theorem prime_sub_one : prime - 1 = 2 ^ 192 * 5 * 7 * 98714381 * 166848103 := by decide

theorem eq_of_prime_dvd_prime_sub_one {q : Nat} (hq : q.Prime) (h : q ∣ prime - 1) :
    q = 2 ∨ q = 5 ∨ q = 7 ∨ q = 98714381 ∨ q = 166848103 := by
  have heq {r : Nat} (hr : r.Prime) (hdvd : q ∣ r) : q = r :=
    (Nat.prime_dvd_prime_iff_eq hq hr).mp hdvd
  rw [prime_sub_one, hq.dvd_mul, hq.dvd_mul, hq.dvd_mul, hq.dvd_mul] at h
  rcases h with (((h | h) | h) | h) | h
  · exact .inl (heq Nat.prime_two (hq.dvd_of_dvd_pow h))
  · exact .inr (.inl (heq (by norm_num) h))
  · exact .inr (.inr (.inl (heq (by norm_num) h)))
  · exact .inr (.inr (.inr (.inl (heq (by norm_num) h))))
  · exact .inr (.inr (.inr (.inr (heq (by norm_num) h))))

theorem three_pow_prime_sub_one : (3 : ZMod prime) ^ (prime - 1) = 1 := by
  unfold prime
  norm_num only
  reduce_mod_char

/-- Three has the full order `prime - 1`, which Lucas's test asks for. -/
theorem prime_prime : prime.Prime := by
  refine lucas_primality prime 3 three_pow_prime_sub_one fun q hq hdvd => ?_
  rcases eq_of_prime_dvd_prime_sub_one hq hdvd with rfl | rfl | rfl | rfl | rfl
  all_goals
    unfold prime
    norm_num only
    reduce_mod_char
    decide

instance : Fact prime.Prime := ⟨prime_prime⟩

namespace Felt

variable (a b : Felt)

/-- The residue of an element, in the field of residues. -/
def residue : ZMod prime :=
  a.toInt

theorem residue_eq_iff : a.residue = b.residue ↔ a.canonical = b.canonical := by
  rw [residue, residue, ZMod.intCast_eq_intCast_iff', ← canonical_eq_emod, ← canonical_eq_emod,
    Int.natCast_inj]

theorem residue_eq_zero_iff : a.residue = 0 ↔ a.isZero = true := by
  rw [residue, ZMod.intCast_zmod_eq_zero_iff_dvd, isZero_iff]
  constructor
  · intro hdvd
    apply Int.eq_zero_of_dvd_of_natAbs_lt_natAbs hdvd
    rw [natAbs_toInt]
    exact a.magnitude_lt
  · intro hzero
    rw [hzero]
    exact Int.dvd_zero _

theorem residue_mul : (a * b).residue = a.residue * b.residue := by
  rw [residue, toInt_mul, Int.tmod_def]
  simp [residue]

theorem isZero_mul_iff : (a * b).isZero = true ↔ a.isZero = true ∨ b.isZero = true := by
  rw [← residue_eq_zero_iff, ← residue_eq_zero_iff, ← residue_eq_zero_iff, residue_mul, mul_eq_zero]

theorem canonical_mul_inj {k : Felt} (hk : k.isZero = false) :
    (a * k).canonical = (b * k).canonical ↔ a.canonical = b.canonical := by
  have hne : k.residue ≠ 0 := by simp [residue_eq_zero_iff, hk]
  rw [← residue_eq_iff, ← residue_eq_iff, residue_mul, residue_mul, mul_left_inj' hne]

protected theorem zero_mul (k : Felt) : zero * k = zero := by
  have hzero : (zero * k).isZero = true := (isZero_mul_iff zero k).mpr (.inl rfl)
  simpa [isZero] using hzero

end Felt

namespace Source

/-- Zero times the multiplier is zero, so both arms of the transform multiply. -/
theorem conditionalTransform_multiplies (name : String) (k : Felt) {c : Config}
    (hc : c.validate = .ok ()) :
    ∃ f, (conditionalTransform name k).emit .default c = .ok f ∧
      ∀ v : Felt, f.call [.felt v] = .ok [.felt (v * k)] := by
  rw [conditionalTransform_eq]
  obtain ⟨f, hf⟩ := exists_emit_of_wellFormed hc (conditionalSource_wellFormed name k)
  obtain ⟨-, -, labels, htranslates⟩ := exists_translates_of_emit hc hf
  refine ⟨f, hf, fun v => ?_⟩
  have hlimit : 2 * 12 ≤ Function.defaultLimit := by decide
  obtain ⟨o, ho, hreturns⟩ :=
    exists_run_of_run htranslates rfl (conditionalSource_run name k v) hlimit
  have hproduct : (if v.isZero then Felt.zero else v * k) = v * k := by
    split
    · rename_i hzero
      obtain rfl : v = Felt.zero := by simpa [Felt.isZero] using hzero
      exact (Felt.zero_mul k).symm
    · rfl
  rw [Function.call, ho, ← hproduct, ← hreturns]
  rfl

/-- Products of nonzero elements are not zero. So the compiled conditional transform by a nonzero
multiplier returns zero on zero only, and different residues for different residues. -/
theorem conditionalTransform_separates :
    (∀ a b : Felt, (a * b).isZero = true ↔ a.isZero = true ∨ b.isZero = true) ∧
    ∀ (name : String) (k : Felt) (c : Config), k.isZero = false → c.validate = .ok () →
      ∃ f, (conditionalTransform name k).emit .default c = .ok f ∧
        ∃ g : Felt → Felt, (∀ v, f.call [.felt v] = .ok [.felt (g v)]) ∧
          (∀ v, (g v).isZero = true → v.isZero = true) ∧
          ∀ v w, v.canonical ≠ w.canonical → (g v).canonical ≠ (g w).canonical := by
  refine ⟨Felt.isZero_mul_iff, fun name k c hk hc => ?_⟩
  obtain ⟨f, hf, hcall⟩ := conditionalTransform_multiplies name k hc
  refine ⟨f, hf, (· * k), hcall, fun v hv => ?_, fun v w hne => ?_⟩
  · have hcases := (Felt.isZero_mul_iff v k).mp hv
    simpa [hk] using hcases
  · exact fun heq => hne ((Felt.canonical_mul_inj v w hk).mp heq)

theorem negation_separates :
    (-Felt.one).isZero = false ∧
    ∃ f, (conditionalTransform "negate" (-Felt.one)).compile = .ok f ∧
      ∃ g : Felt → Felt, (∀ v, f.call [.felt v] = .ok [.felt (g v)]) ∧
        (∀ v, (g v).isZero = true → v.isZero = true) ∧
        ∀ v w, v.canonical ≠ w.canonical → (g v).canonical ≠ (g w).canonical := by
  have hnonzero : (-Felt.one).isZero = false := by decide
  exact ⟨hnonzero, conditionalTransform_separates.2 "negate" (-Felt.one) {} hnonzero rfl⟩

end Source

end FieldSSA
