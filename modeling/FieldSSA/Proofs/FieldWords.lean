import FieldSSA.Felt.Decimal
import FieldSSA.Function.Bytes
import FieldSSA.Proofs.FieldArithmetic

/-!
Field operations on words: magnitudes have 256 bits and products 512, and every step that
would lose a bit fails. No step does: the words that can be built are those of elements, and
on these the operations on words are the operations on elements.
-/

namespace FieldSSA

section Checked

variable {w : Nat}

def checkedAdd (x y : BitVec w) : Option (BitVec w) :=
  if x.uaddOverflow y then none else some (x + y)

def checkedSub (x y : BitVec w) : Option (BitVec w) :=
  if x.usubOverflow y then none else some (x - y)

def checkedMul (x y : BitVec w) : Option (BitVec w) :=
  if x.umulOverflow y then none else some (x * y)

/-- The low bits, if all others are zero. -/
def checkedNarrow (target : Nat) (x : BitVec w) : Option (BitVec target) :=
  if x.toNat < 2 ^ target then some (x.setWidth target) else none

variable {m n : Nat}

theorem toNat_ofNat_of_lt (h : n < 2 ^ w) : (BitVec.ofNat w n).toNat = n := by
  rw [BitVec.toNat_ofNat, Nat.mod_eq_of_lt h]

theorem checkedAdd_ofNat (h : m + n < 2 ^ w) :
    checkedAdd (BitVec.ofNat w m) (BitVec.ofNat w n) = some (BitVec.ofNat w (m + n)) := by
  have hfits : ¬ (BitVec.ofNat w m).uaddOverflow (BitVec.ofNat w n) = true := by
    simp only [BitVec.uaddOverflow, toNat_ofNat_of_lt (show m < 2 ^ w by omega),
      toNat_ofNat_of_lt (show n < 2 ^ w by omega), decide_eq_true_eq]
    omega
  rw [checkedAdd, if_neg hfits, BitVec.ofNat_add]

theorem checkedSub_ofNat (hm : m < 2 ^ w) (h : n ≤ m) :
    checkedSub (BitVec.ofNat w m) (BitVec.ofNat w n) = some (BitVec.ofNat w (m - n)) := by
  have hfits : ¬ (BitVec.ofNat w m).usubOverflow (BitVec.ofNat w n) = true := by
    simp only [BitVec.usubOverflow, toNat_ofNat_of_lt hm,
      toNat_ofNat_of_lt (show n < 2 ^ w by omega), decide_eq_true_eq]
    omega
  rw [checkedSub, if_neg hfits, BitVec.ofNat_sub_ofNat_of_le _ _ (by omega) h]

theorem checkedMul_ofNat (hm : m < 2 ^ w) (hn : n < 2 ^ w) (h : m * n < 2 ^ w) :
    checkedMul (BitVec.ofNat w m) (BitVec.ofNat w n) = some (BitVec.ofNat w (m * n)) := by
  have hfits : ¬ (BitVec.ofNat w m).umulOverflow (BitVec.ofNat w n) = true := by
    simp only [BitVec.umulOverflow, toNat_ofNat_of_lt hm, toNat_ofNat_of_lt hn,
      decide_eq_true_eq]
    omega
  rw [checkedMul, if_neg hfits, BitVec.ofNat_mul]

theorem ofNat_umod_ofNat (hm : m < 2 ^ w) (hn : n < 2 ^ w) :
    BitVec.ofNat w m % BitVec.ofNat w n = BitVec.ofNat w (m % n) := by
  have hmod : m % n < 2 ^ w := Nat.lt_of_le_of_lt (Nat.mod_le m n) hm
  apply BitVec.eq_of_toNat_eq
  rw [BitVec.toNat_umod, toNat_ofNat_of_lt hm, toNat_ofNat_of_lt hn, toNat_ofNat_of_lt hmod]

theorem ofNat_le_ofNat_iff (hm : m < 2 ^ w) (hn : n < 2 ^ w) :
    BitVec.ofNat w m ≤ BitVec.ofNat w n ↔ m ≤ n := by
  rw [BitVec.le_def, toNat_ofNat_of_lt hm, toNat_ofNat_of_lt hn]

theorem ofNat_eq_zero_iff (hn : n < 2 ^ w) : BitVec.ofNat w n = 0 ↔ n = 0 := by
  rw [← BitVec.toNat_inj, toNat_ofNat_of_lt hn]
  rfl

theorem setWidth_ofNat {target : Nat} (hn : n < 2 ^ w) :
    (BitVec.ofNat w n).setWidth target = BitVec.ofNat target n := by
  apply BitVec.eq_of_toNat_eq
  rw [BitVec.toNat_setWidth, toNat_ofNat_of_lt hn, BitVec.toNat_ofNat]

theorem checkedNarrow_ofNat {target : Nat} (hn : n < 2 ^ w) (h : n < 2 ^ target) :
    checkedNarrow target (BitVec.ofNat w n) = some (BitVec.ofNat target n) := by
  rw [checkedNarrow, toNat_ofNat_of_lt hn, if_pos h, setWidth_ofNat hn]

end Checked

namespace Felt

/-- A sign and a magnitude of 256 bits, as an element is held. The magnitude need not be
reduced, and zero may have a sign. -/
structure Raw where
  negative : Bool
  magnitude : BitVec 256
deriving DecidableEq

def raw (a : Felt) : Raw :=
  ⟨a.negative, BitVec.ofNat 256 a.magnitude⟩

namespace Raw

/-- The magnitude is below the order, and zero has no sign. -/
def Reduced (x : Raw) : Prop :=
  x.magnitude.toNat < prime ∧ ¬ (x.negative = true ∧ x.magnitude = 0)

def reduce (negative : Bool) (m : BitVec 256) : Raw :=
  let p := BitVec.ofNat 256 prime
  let m := if p ≤ m then m % p else m
  ⟨negative && m != 0, m⟩

def neg (x : Raw) : Raw :=
  reduce (!x.negative) x.magnitude

def add (x y : Raw) : Option Raw :=
  if x.negative = y.negative then
    (checkedAdd x.magnitude y.magnitude).map (reduce x.negative)
  else if y.magnitude ≤ x.magnitude then
    (checkedSub x.magnitude y.magnitude).map (reduce x.negative)
  else (checkedSub y.magnitude x.magnitude).map (reduce y.negative)

def sub (x y : Raw) : Option Raw :=
  x.add y.neg

/-- The product is formed and reduced in 512 bits. -/
def mul (x y : Raw) : Option Raw :=
  (checkedMul (x.magnitude.setWidth 512) (y.magnitude.setWidth 512)).bind fun wide =>
    (checkedNarrow 256 (wide % BitVec.ofNat 512 prime)).map (reduce (x.negative != y.negative))

def canonical (x : Raw) : Option (BitVec 256) :=
  if x.negative then checkedSub (BitVec.ofNat 256 prime) x.magnitude else some x.magnitude

/-- What can be had from words, 64-bit numbers, literals and bytes by field operations. -/
inductive Built : Raw → Prop
  | ofWord (m : BitVec 256) : Built (reduce false m)
  | ofSigned (negative : Bool) (m : BitVec 256) : Built (reduce negative m)
  | ofUInt64 (n : UInt64) : Built (reduce false (BitVec.ofNat 256 n.toNat))
  | ofInt64 (z : Int64) :
      Built (reduce (decide (z.toInt < 0)) (BitVec.ofNat 256 z.toInt.natAbs))
  | ofDecimal {literal : String} {a : Felt} : Felt.ofDecimal literal = .ok a → Built a.raw
  | ofBytes {bytes : List UInt8} {a : Felt} : Felt.ofBytes bytes = .ok a → Built a.raw
  | neg {x : Raw} : Built x → Built x.neg
  | add {x y z : Raw} : Built x → Built y → x.add y = some z → Built z
  | sub {x y z : Raw} : Built x → Built y → x.sub y = some z → Built z
  | mul {x y z : Raw} : Built x → Built y → x.mul y = some z → Built z

end Raw

theorem toNat_raw_magnitude (a : Felt) : a.raw.magnitude.toNat = a.magnitude := by
  have hlt := a.magnitude_lt_two_pow
  exact toNat_ofNat_of_lt (by omega)

theorem raw_reduced (a : Felt) : a.raw.Reduced := by
  refine ⟨?_, ?_⟩
  · rw [toNat_raw_magnitude]
    exact a.magnitude_lt
  · rintro ⟨hnegative, hzero⟩
    apply a.magnitude_ne_zero hnegative
    rw [← toNat_raw_magnitude, hzero]
    rfl

theorem raw_inj {a b : Felt} : a.raw = b.raw ↔ a = b := by
  constructor
  · intro h
    have hmagnitude : a.magnitude = b.magnitude := by
      rw [← toNat_raw_magnitude, ← toNat_raw_magnitude, h]
    have hnegative : a.negative = b.negative := congrArg Raw.negative h
    cases a
    cases b
    simp_all
  · rintro rfl
    rfl

theorem reduce_ofNat (negative : Bool) {n : Nat} (hn : n < 2 ^ 256) :
    Raw.reduce negative (BitVec.ofNat 256 n) = (ofSignMagnitude negative n).raw := by
  have hprime : prime < 2 ^ 256 := by decide
  have hmod : n % prime < 2 ^ 256 := Nat.lt_of_le_of_lt (Nat.mod_le n prime) hn
  have hword : (if BitVec.ofNat 256 prime ≤ BitVec.ofNat 256 n
      then BitVec.ofNat 256 n % BitVec.ofNat 256 prime else BitVec.ofNat 256 n) =
        BitVec.ofNat 256 (n % prime) := by
    rw [ofNat_umod_ofNat hn hprime]
    split
    · rfl
    · rename_i hle
      rw [ofNat_le_ofNat_iff hprime hn] at hle
      rw [Nat.mod_eq_of_lt (by omega)]
  have hzero : (BitVec.ofNat 256 (n % prime) != 0) = (n % prime != 0) := by
    rw [Bool.eq_iff_iff, bne_iff_ne, bne_iff_ne, ne_eq, ne_eq, ofNat_eq_zero_iff hmod]
  simp only [Raw.reduce, hword, hzero]
  rfl

theorem reduce_word (negative : Bool) (m : BitVec 256) :
    Raw.reduce negative m = (ofSignMagnitude negative m.toNat).raw := by
  have hword : BitVec.ofNat 256 m.toNat = m := by simp
  rw [← reduce_ofNat negative m.isLt, hword]

theorem raw_neg (a : Felt) : a.raw.neg = (-a).raw := by
  have ha := a.magnitude_lt_two_pow
  exact reduce_ofNat (!a.negative) (by omega)

theorem raw_add (a b : Felt) : a.raw.add b.raw = some (a + b).raw := by
  have ha := a.magnitude_lt_two_pow
  have hb := b.magnitude_lt_two_pow
  show a.raw.add b.raw = some (Felt.add a b).raw
  simp only [Raw.add, raw, ofNat_le_ofNat_iff (show b.magnitude < 2 ^ 256 by omega)
    (show a.magnitude < 2 ^ 256 by omega), Felt.add]
  split
  · rw [checkedAdd_ofNat (by omega), Option.map_some, reduce_ofNat _ (by omega)]
    rfl
  · split
    · rename_i hle
      rw [checkedSub_ofNat (by omega) hle, Option.map_some, reduce_ofNat _ (by omega)]
      rfl
    · rw [checkedSub_ofNat (by omega) (by omega), Option.map_some, reduce_ofNat _ (by omega)]
      rfl

theorem raw_sub (a b : Felt) : a.raw.sub b.raw = some (a - b).raw := by
  rw [Raw.sub, raw_neg]
  exact raw_add a (-b)

theorem ofSignMagnitude_mod (negative : Bool) (n : Nat) :
    ofSignMagnitude negative (n % prime) = ofSignMagnitude negative n := by
  simp [ofSignMagnitude]

theorem two_pow_mul_two_pow_lt : 2 ^ 252 * 2 ^ 252 < 2 ^ 512 := by
  rw [← Nat.pow_add]
  apply Nat.pow_lt_pow_right
  · decide
  · decide

theorem raw_mul (a b : Felt) : a.raw.mul b.raw = some (a * b).raw := by
  have hnarrow : 2 ^ 252 < 2 ^ 256 := by decide
  have hwide : 2 ^ 252 < 2 ^ 512 := by
    apply Nat.pow_lt_pow_right
    · decide
    · decide
  have ha := a.magnitude_lt_two_pow
  have hb := b.magnitude_lt_two_pow
  have hproduct : a.magnitude * b.magnitude < 2 ^ 512 :=
    Nat.lt_trans (Nat.mul_lt_mul'' ha hb) two_pow_mul_two_pow_lt
  have hmod : a.magnitude * b.magnitude % prime < 2 ^ 252 :=
    Nat.lt_trans (Nat.mod_lt _ prime_pos) prime_lt_two_pow
  have hsource : a.raw.mul b.raw =
      (checkedNarrow 256 (BitVec.ofNat 512 (a.magnitude * b.magnitude % prime))).map
        (Raw.reduce (a.negative != b.negative)) := by
    rw [Raw.mul, raw, raw, setWidth_ofNat (Nat.lt_trans ha hnarrow),
      setWidth_ofNat (Nat.lt_trans hb hnarrow),
      checkedMul_ofNat (Nat.lt_trans ha hwide) (Nat.lt_trans hb hwide) hproduct, Option.bind_some,
      ofNat_umod_ofNat hproduct (Nat.lt_trans prime_lt_two_pow hwide)]
  rw [hsource, checkedNarrow_ofNat (Nat.lt_trans hmod hwide) (Nat.lt_trans hmod hnarrow),
    Option.map_some, reduce_ofNat _ (Nat.lt_trans hmod hnarrow), ofSignMagnitude_mod]
  rfl

theorem raw_canonical (a : Felt) : a.raw.canonical = some (BitVec.ofNat 256 a.canonical) := by
  have hlt := a.magnitude_lt
  have hprime : prime < 2 ^ 256 := by decide
  have hsub := checkedSub_ofNat hprime (Nat.le_of_lt hlt)
  show (if a.negative then checkedSub (BitVec.ofNat 256 prime) (BitVec.ofNat 256 a.magnitude)
    else some (BitVec.ofNat 256 a.magnitude)) = _
  rw [canonical, hsub]
  cases a.negative <;> rfl

namespace Raw

/-- Only the words of elements can be built. -/
theorem Built.exists_felt {x : Raw} (h : x.Built) : ∃ a : Felt, x = a.raw := by
  induction h with
  | ofWord m => exact ⟨.ofNat m.toNat, reduce_word false m⟩
  | ofSigned negative m => exact ⟨.ofSignMagnitude negative m.toNat, reduce_word negative m⟩
  | ofUInt64 n =>
      have hn : n.toNat < 2 ^ 64 := n.toNat_lt
      exact ⟨.ofNat n.toNat, reduce_ofNat false (by omega)⟩
  | ofInt64 z =>
      have hz : z.toInt.natAbs < 2 ^ 256 := by
        have := z.toInt_lt
        have := z.le_toInt
        omega
      exact ⟨.ofInt z.toInt, reduce_ofNat _ hz⟩
  | @ofDecimal _ a _ => exact ⟨a, rfl⟩
  | @ofBytes _ a _ => exact ⟨a, rfl⟩
  | neg _ ih =>
      obtain ⟨a, rfl⟩ := ih
      exact ⟨-a, raw_neg a⟩
  | add _ _ hz ihx ihy =>
      obtain ⟨a, rfl⟩ := ihx
      obtain ⟨b, rfl⟩ := ihy
      exact ⟨a + b, Option.some.inj (hz.symm.trans (raw_add a b))⟩
  | sub _ _ hz ihx ihy =>
      obtain ⟨a, rfl⟩ := ihx
      obtain ⟨b, rfl⟩ := ihy
      exact ⟨a - b, Option.some.inj (hz.symm.trans (raw_sub a b))⟩
  | mul _ _ hz ihx ihy =>
      obtain ⟨a, rfl⟩ := ihx
      obtain ⟨b, rfl⟩ := ihy
      exact ⟨a * b, Option.some.inj (hz.symm.trans (raw_mul a b))⟩

/-- Words that can be built are those of elements, so they are reduced and zero has no sign.
The operations on them fail nowhere, they are the operations on elements, and these are the
operations on integers up to the remainder. -/
theorem arithmetic_exact {x y : Raw} (hx : x.Built) (hy : y.Built) :
    x.Reduced ∧ ∃ a b : Felt, x = a.raw ∧ y = b.raw ∧
      (x.add y = some (a + b).raw ∧ (a + b).toInt = (a.toInt + b.toInt).tmod prime) ∧
      (x.sub y = some (a - b).raw ∧ (a - b).toInt = (a.toInt - b.toInt).tmod prime) ∧
      (x.mul y = some (a * b).raw ∧ (a * b).toInt = (a.toInt * b.toInt).tmod prime) ∧
      (x.neg = (-a).raw ∧ (-a).toInt = -a.toInt) ∧
      (x.canonical = some (BitVec.ofNat 256 a.canonical) ∧
        (a.canonical : Int) = a.toInt % prime) ∧
      (x = y ↔ a.toInt = b.toInt) ∧ (a.isZero = true ↔ a.toInt = 0) := by
  obtain ⟨a, rfl⟩ := hx.exists_felt
  obtain ⟨b, rfl⟩ := hy.exists_felt
  refine ⟨a.raw_reduced, a, b, rfl, rfl, ⟨raw_add a b, toInt_add a b⟩,
    ⟨raw_sub a b, toInt_sub a b⟩, ⟨raw_mul a b, toInt_mul a b⟩, ⟨raw_neg a, toInt_neg a⟩,
    ⟨raw_canonical a, canonical_eq_emod a⟩, ?_, isZero_iff a⟩
  rw [raw_inj, toInt_inj]

/-- The least element. -/
def lowest : Raw :=
  reduce true (BitVec.ofNat 256 (prime - 1))

theorem lowest_add_lowest :
    lowest.Built ∧ ∃ z : Felt, lowest.add lowest = some z.raw ∧ z.toInt = 2 - prime := by
  have hbuilt : lowest.Built := .ofSigned true _
  obtain ⟨-, a, b, ha, hb, ⟨hadd, hint⟩, -⟩ := arithmetic_exact hbuilt hbuilt
  have hlowest : lowest = (ofSignMagnitude true (prime - 1)).raw :=
    reduce_ofNat true (by decide)
  obtain rfl : _ = a := raw_inj.mp (hlowest.symm.trans ha)
  obtain rfl : _ = b := raw_inj.mp (hlowest.symm.trans hb)
  refine ⟨hbuilt, _, hadd, ?_⟩
  rw [hint]
  decide

end Raw

end Felt

end FieldSSA
