import Mathlib.Algebra.Group.Nat.Defs
import FieldSSA.Felt.Basic

namespace FieldSSA

theorem prime_lt_two_pow : prime < 2 ^ 252 := by decide

/-- The integer with this sign and magnitude. -/
def signed (negative : Bool) (n : Nat) : Int :=
  if negative then -(n : Int) else n

@[simp]
theorem signed_false (n : Nat) : signed false n = n := rfl

@[simp]
theorem signed_true (n : Nat) : signed true n = -(n : Int) := rfl

theorem signed_not (negative : Bool) (n : Nat) : signed (!negative) n = -signed negative n := by
  cases negative <;> simp

theorem signed_add (negative : Bool) (m n : Nat) :
    signed negative (m + n) = signed negative m + signed negative n := by
  cases negative with
  | false => simp
  | true =>
      simp only [signed_true]
      omega

theorem signed_sub {m n : Nat} (negative : Bool) (h : n ≤ m) :
    signed negative (m - n) = signed negative m - signed negative n := by
  cases negative with
  | false =>
      simp only [signed_false]
      omega
  | true =>
      simp only [signed_true]
      omega

theorem signed_mul (s t : Bool) (m n : Nat) :
    signed (s != t) (m * n) = signed s m * signed t n := by
  have hcast : ((m * n : Nat) : Int) = m * n := Int.natCast_mul m n
  cases s with
  | false =>
      cases t with
      | false => exact hcast
      | true => exact (congrArg Neg.neg hcast).trans (Int.mul_neg _ _).symm
  | true =>
      cases t with
      | false => exact (congrArg Neg.neg hcast).trans (Int.neg_mul _ _).symm
      | true => exact hcast.trans (Int.neg_mul_neg _ _).symm

namespace Felt

variable (a b : Felt)

theorem magnitude_lt_two_pow : a.magnitude < 2 ^ 252 :=
  Nat.lt_trans a.magnitude_lt prime_lt_two_pow

theorem toInt_eq_signed : a.toInt = signed a.negative a.magnitude := rfl

theorem natAbs_toInt : a.toInt.natAbs = a.magnitude := by
  rw [toInt_eq_signed]
  cases a.negative <;> simp

theorem toInt_bounds : -(prime : Int) < a.toInt ∧ a.toInt < prime := by
  have hlt := a.magnitude_lt
  have habs := a.natAbs_toInt
  omega

theorem toInt_ofSignMagnitude (negative : Bool) (n : Nat) :
    (ofSignMagnitude negative n).toInt = (signed negative n).tmod prime := by
  cases negative with
  | false => exact Int.ofNat_tmod n prime
  | true =>
      rw [signed_true, Int.neg_tmod, ← Int.ofNat_tmod, toInt_eq_signed]
      show signed (n % prime != 0) (n % prime) = -((n % prime : Nat) : Int)
      by_cases hzero : n % prime = 0
      · rw [hzero]
        rfl
      · rw [bne_iff_ne.mpr hzero, signed_true]

theorem toInt_tmod : a.toInt.tmod prime = a.toInt := by
  have hlt : (a.magnitude : Int) < prime := by
    have := a.magnitude_lt
    omega
  have hsmall : (a.magnitude : Int).tmod prime = a.magnitude :=
    Int.tmod_eq_of_lt (Int.natCast_nonneg _) hlt
  rw [toInt_eq_signed]
  cases a.negative with
  | false => exact hsmall
  | true => rw [signed_true, Int.neg_tmod, hsmall]

theorem toInt_neg : (-a).toInt = -a.toInt := by
  show (ofSignMagnitude (!a.negative) a.magnitude).toInt = -a.toInt
  rw [toInt_ofSignMagnitude, signed_not, ← toInt_eq_signed, Int.neg_tmod, toInt_tmod]

theorem toInt_add : (a + b).toInt = (a.toInt + b.toInt).tmod prime := by
  show (Felt.add a b).toInt = _
  rw [Felt.add, toInt_eq_signed a, toInt_eq_signed b]
  split
  · rename_i hsame
    rw [toInt_ofSignMagnitude, signed_add, hsame]
  · rename_i hdiff
    have hopposite : b.negative = !a.negative := by
      cases ha : a.negative <;> cases hb : b.negative <;> simp_all
    split
    · rename_i hle
      rw [toInt_ofSignMagnitude, signed_sub _ hle, hopposite, signed_not, Int.sub_eq_add_neg]
    · rename_i hgt
      rw [toInt_ofSignMagnitude, signed_sub _ (by omega), hopposite, signed_not, signed_not]
      congr 1
      omega

theorem toInt_sub : (a - b).toInt = (a.toInt - b.toInt).tmod prime := by
  show (a + -b).toInt = _
  rw [toInt_add, toInt_neg, Int.sub_eq_add_neg]

theorem toInt_mul : (a * b).toInt = (a.toInt * b.toInt).tmod prime := by
  show (ofSignMagnitude _ _).toInt = _
  rw [toInt_ofSignMagnitude, signed_mul]
  rfl

theorem canonical_lt : a.canonical < prime := by
  have hlt := a.magnitude_lt
  unfold canonical
  split
  · rename_i hnegative
    have hne := a.magnitude_ne_zero hnegative
    omega
  · exact hlt

theorem canonical_eq_emod : (a.canonical : Int) = a.toInt % prime := by
  have hlt := a.canonical_lt
  have hcongruent : (a.canonical : Int) % prime = a.toInt % prime := by
    have hmagnitude := a.magnitude_lt
    unfold canonical toInt
    split
    · have hshift : ((prime - a.magnitude : Nat) : Int) = -(a.magnitude : Int) + prime := by
        omega
      rw [hshift, Int.add_emod_right]
    · rfl
  rw [← hcongruent, Int.emod_eq_of_lt (by omega) (by omega)]

theorem canonical_of_neg (h : a.toInt < 0) : (a.canonical : Int) = a.toInt + prime := by
  rw [canonical_eq_emod, ← Int.add_emod_right]
  exact Int.emod_eq_of_lt (by have := a.toInt_bounds; omega) (by omega)

theorem canonical_of_nonneg (h : 0 ≤ a.toInt) : (a.canonical : Int) = a.toInt := by
  rw [canonical_eq_emod]
  exact Int.emod_eq_of_lt h a.toInt_bounds.2

/-- Zero has one sign, so the sign and the magnitude can be told from the integer. -/
theorem toInt_inj : a.toInt = b.toInt ↔ a = b := by
  constructor
  · intro h
    have hmagnitude : a.magnitude = b.magnitude := by
      rw [← natAbs_toInt, ← natAbs_toInt, h]
    have hnegative : a.negative = b.negative := by
      rw [toInt_eq_signed, toInt_eq_signed] at h
      cases hs : a.negative with
      | false =>
          cases ht : b.negative with
          | false => rfl
          | true =>
              have hb := b.magnitude_ne_zero ht
              rw [hs, ht, signed_false, signed_true] at h
              omega
      | true =>
          cases ht : b.negative with
          | false =>
              have ha := a.magnitude_ne_zero hs
              rw [hs, ht, signed_false, signed_true] at h
              omega
          | true => rfl
    cases a
    cases b
    simp_all
  · rintro rfl
    rfl

theorem toInt_ofNat {n : Nat} (hn : n < prime) : (ofNat n).toInt = n := by
  rw [ofNat, toInt_ofSignMagnitude, signed_false]
  exact Int.tmod_eq_of_lt (Int.natCast_nonneg n) (by omega)

theorem ofNat_succ_sub_one {n : Nat} (hn : n + 1 < prime) : ofNat (n + 1) - one = ofNat n := by
  have hone : one.toInt = 1 := rfl
  have hcast : ((n + 1 : Nat) : Int) - 1 = n := by omega
  rw [← toInt_inj, toInt_sub, toInt_ofNat hn, toInt_ofNat (Nat.lt_of_succ_lt hn), hone, hcast]
  exact Int.tmod_eq_of_lt (Int.natCast_nonneg n) (by omega)

theorem isZero_iff : a.isZero = true ↔ a.toInt = 0 := by
  have hzero : zero.toInt = 0 := rfl
  rw [isZero, beq_iff_eq, ← toInt_inj, hzero]

end Felt

end FieldSSA
