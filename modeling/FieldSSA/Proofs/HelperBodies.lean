import FieldSSA.Proofs.Evaluation
import FieldSSA.Proofs.FieldArithmetic
import FieldSSA.Proofs.HelperReading

namespace FieldSSA

section Words

variable {w k : Nat} {z : Int}

theorem toInt_ofInt_of_natAbs_lt (hz : z.natAbs < 2 ^ k) (hk : k < w) :
    (BitVec.ofInt w z).toInt = z := by
  have hpow : 2 ^ k ≤ 2 ^ (w - 1) := Nat.pow_le_pow_right (by decide) (by omega)
  have hcast : ((2 ^ (w - 1) : Nat) : Int) = 2 ^ (w - 1) := by norm_cast
  apply BitVec.toInt_ofInt_eq_self (by omega)
  · omega
  · omega

theorem toInt_ofNat_prime (hw : 256 ≤ w) : (BitVec.ofNat w prime).toInt = prime := by
  rw [← BitVec.ofInt_natCast]
  exact toInt_ofInt_of_natAbs_lt (k := 252) prime_lt_two_pow (by omega)

theorem ofNat_prime_ne_zero (hw : 256 ≤ w) : BitVec.ofNat w prime ≠ 0#w := by
  intro h
  have hprime := toInt_ofNat_prime hw
  rw [h] at hprime
  simp [prime] at hprime

theorem srem_prime (hw : 256 ≤ w) (hz : z.natAbs < 2 ^ k) (hk : k < w) :
    (BitVec.ofInt w z).srem (BitVec.ofNat w prime) = BitVec.ofInt w (z.tmod prime) := by
  -- The remainder of words is defined by signs and magnitudes; its integer is `tmod`.
  rw [← BitVec.ofInt_toInt (x := (BitVec.ofInt w z).srem _), BitVec.toInt_srem,
    toInt_ofInt_of_natAbs_lt hz hk, toInt_ofNat_prime hw]

theorem signExtend_ofInt (target : Nat) (hz : z.natAbs < 2 ^ k) (hk : k < w) :
    (BitVec.ofInt w z).signExtend target = BitVec.ofInt target z := by
  rw [BitVec.signExtend, toInt_ofInt_of_natAbs_lt hz hk]

theorem setWidth_ofInt {target : Nat} (htarget : target ≤ w) (hz : z.natAbs < 2 ^ k)
    (hk : k < w) : (BitVec.ofInt w z).setWidth target = BitVec.ofInt target z := by
  rw [← BitVec.signExtend_eq_setWidth_of_le _ htarget, signExtend_ofInt target hz hk]

theorem natAbs_mul_lt {x : Int} (hx : x.natAbs < 2 ^ k) (hz : z.natAbs < 2 ^ k) :
    (x * z).natAbs < 2 ^ (k + k) := by
  rw [Int.natAbs_mul, Nat.pow_add]
  exact Nat.mul_lt_mul'' hx hz

end Words

namespace Felt

variable {w : Nat} (a b : Felt)

theorem natAbs_toInt_lt : a.toInt.natAbs < 2 ^ 252 := by
  rw [natAbs_toInt]
  exact a.magnitude_lt_two_pow

/-- A field element as a word of this width. -/
def word (w : Nat) (a : Felt) : BitVec w :=
  BitVec.ofInt w a.toInt

theorem word_add (hw : 256 ≤ w) :
    (a.word w + b.word w).srem (BitVec.ofNat w prime) = (a + b).word w := by
  have ha := a.natAbs_toInt_lt
  have hb := b.natAbs_toInt_lt
  have hsum : (a.toInt + b.toInt).natAbs < 2 ^ 253 := by omega
  rw [word, word, ← BitVec.ofInt_add, srem_prime hw hsum (by omega), ← toInt_add, word]

theorem word_sub (hw : 256 ≤ w) :
    (a.word w - b.word w).srem (BitVec.ofNat w prime) = (a - b).word w := by
  have ha := a.natAbs_toInt_lt
  have hb := b.natAbs_toInt_lt
  have hdiff : (a.toInt - b.toInt).natAbs < 2 ^ 253 := by omega
  have hwords : a.word w - b.word w = BitVec.ofInt w (a.toInt - b.toInt) := by
    rw [word, word, BitVec.sub_eq_add_neg, ← BitVec.ofInt_neg, ← BitVec.ofInt_add,
      Int.sub_eq_add_neg]
  rw [hwords, srem_prime hw hdiff (by omega), ← toInt_sub, word]

theorem word_mul (hw : 256 ≤ w) :
    (((a.word w).signExtend (2 * w) * (b.word w).signExtend (2 * w)).srem
      (BitVec.ofNat (2 * w) prime)).setWidth w = (a * b).word w := by
  have ha := a.natAbs_toInt_lt
  have hb := b.natAbs_toInt_lt
  -- Two factors below `2 ^ 252` leave room for the sign in twice 256 bits.
  have hproduct := natAbs_mul_lt ha hb
  rw [word, word, signExtend_ofInt _ ha (by omega), signExtend_ofInt _ hb (by omega),
    ← BitVec.ofInt_mul, srem_prime (by omega) hproduct (by omega), ← toInt_mul,
    setWidth_ofInt (by omega) (a * b).natAbs_toInt_lt (by omega), word]

/-- A negative word is made a residue by adding the order. -/
theorem word_canonical (hw : 256 ≤ w) :
    (if BitVec.ofBool ((a.word w).slt 0#w) = 1#1 then a.word w + BitVec.ofNat w prime
      else a.word w) = BitVec.ofNat w a.canonical := by
  have ha := a.natAbs_toInt_lt
  have hslt : (a.word w).slt 0#w = decide (a.toInt < 0) := by
    rw [BitVec.slt, word, toInt_ofInt_of_natAbs_lt ha (by omega), BitVec.toInt_zero]
  rw [hslt, ← BitVec.ofInt_natCast w prime, ← BitVec.ofInt_natCast w a.canonical, word,
    ← BitVec.ofInt_add]
  by_cases hneg : a.toInt < 0
  · rw [if_pos (by simp [hneg]), canonical_of_neg a hneg]
  · rw [if_neg (by simp [hneg]), canonical_of_nonneg a (by omega)]

theorem ult_canonical (hw : 256 ≤ w) :
    (BitVec.ofNat w a.canonical).ult (BitVec.ofNat w UInt32.size) =
      decide (a.canonical < UInt32.size) := by
  have hpow : 2 ^ 252 ≤ 2 ^ w := Nat.pow_le_pow_right (by decide) (by omega)
  have hcanonical : a.canonical < 2 ^ w :=
    Nat.lt_of_lt_of_le (Nat.lt_trans a.canonical_lt prime_lt_two_pow) hpow
  have hsize : UInt32.size < 2 ^ w := Nat.lt_of_lt_of_le (by decide) hpow
  rw [BitVec.ult, BitVec.toNat_ofNat, BitVec.toNat_ofNat, Nat.mod_eq_of_lt hcanonical,
    Nat.mod_eq_of_lt hsize]

theorem word_ofNat {n : Nat} (hn : n < prime) : (ofNat n).word w = BitVec.ofNat w n := by
  have hmod : n % prime = n := Nat.mod_eq_of_lt hn
  rw [word, ← BitVec.ofInt_natCast]
  show BitVec.ofInt w ((n % prime : Nat) : Int) = BitVec.ofInt w n
  rw [hmod]

end Felt

namespace Scalar

variable (w : Nat)

@[simp]
theorem toWord_felt (a : Felt) : (felt a).toWord w = ⟨w, a.word w⟩ := rfl

@[simp]
theorem toWord_u32 (x : UInt32) : (u32 x).toWord w = ⟨32, x.toBitVec⟩ := rfl

@[simp]
theorem toWord_bool (p : Bool) : (bool p).toWord w = ⟨1, BitVec.ofBool p⟩ := rfl

end Scalar

namespace Helper

section Operands

variable {rs : Registers} {dest name : String} {w : Nat} {v : BitVec w}

@[simp]
theorem Operand.eval_lit (n : Nat) : (Operand.lit n).eval rs w = some (BitVec.ofNat w n) := rfl

@[simp]
theorem Operand.eval_reg_self : (Operand.reg name).eval ((name, ⟨w, v⟩) :: rs) w = some v := by
  simp [Operand.eval]

@[simp]
theorem Operand.eval_reg_of_ne {word : Word} (h : name ≠ dest) :
    (Operand.reg name).eval ((dest, word) :: rs) w = (Operand.reg name).eval rs w := by
  have hbeq : (name == dest) = false := by simpa using h
  simp only [Operand.eval, List.lookup_cons, hbeq]

end Operands

/-- The body of a helper takes the words of these arguments to the words of these results. -/
def Computes (c : Config) (i : Intrinsic) (args results : List Scalar) : Prop :=
  i.evalBody c args = some (results.map (Scalar.toWord c.width))

section Bodies

-- A body is run by unfolding the evaluator along its lines.
attribute [local simp] Computes Intrinsic.evalBody paramNames body evalLines Line.assign
  Arithmetic.eval Ordering.eval Extension.eval

variable {c : Config} (a b : Felt) (x y : UInt32) (v : Scalar)

theorem computes_dup : Computes c (.dup v.ty) [v] [v, v] := by
  cases v <;> simp [Scalar.ty, Ty.storageBits]

theorem computes_storeTemp : Computes c (.storeTemp v.ty) [v] [v] := by
  cases v <;> simp [Scalar.ty, Ty.storageBits]

theorem computes_rename : Computes c (.rename v.ty) [v] [v] :=
  computes_storeTemp v

theorem computes_felt252Mul (hw : 256 ≤ c.width) :
    Computes c .felt252Mul [.felt a, .felt b] [.felt (a * b)] := by
  have hprime : BitVec.ofNat (2 * c.width) prime ≠ 0#(2 * c.width) :=
    ofNat_prime_ne_zero (by omega)
  have hmul := Felt.word_mul a b hw
  simp [Config.wideWidth, hprime, hmul]

theorem computes_felt252Add (hw : 256 ≤ c.width) :
    Computes c .felt252Add [.felt a, .felt b] [.felt (a + b)] := by
  have hprime := ofNat_prime_ne_zero hw
  have hadd := Felt.word_add a b hw
  simp [hprime, hadd]

theorem computes_felt252Sub (hw : 256 ≤ c.width) :
    Computes c .felt252Sub [.felt a, .felt b] [.felt (a - b)] := by
  have hprime := ofNat_prime_ne_zero hw
  have hsub := Felt.word_sub a b hw
  simp [hprime, hsub]

theorem computes_u32OverflowingAdd : Computes c .u32OverflowingAdd [.u32 x, .u32 y]
    [.u32 (x + y), .bool (decide (UInt32.size ≤ x.toNat + y.toNat))] := by
  have hwraps : (x.toBitVec + y.toBitVec).ult x.toBitVec =
      decide (UInt32.size ≤ x.toNat + y.toNat) := by
    rw [← decide_eq_decide.mpr (add_wraps_iff x y)]
    rfl
  simp [hwraps]

theorem computes_u32OverflowingSub : Computes c .u32OverflowingSub [.u32 x, .u32 y]
    [.u32 (x - y), .bool (decide (x < y))] := by
  have hlt : x.toBitVec.ult y.toBitVec = decide (x < y) := rfl
  simp [hlt]

theorem computes_u32Divmod (hy : y ≠ 0) :
    Computes c .u32Divmod [.u32 x, .u32 y] [.u32 (x / y), .u32 (x % y)] := by
  have hzero : y.toBitVec ≠ 0#32 := fun h => hy (UInt32.toBitVec_inj.mp h)
  simp [hzero]

theorem computes_u32ToFelt252 :
    Computes c .u32ToFelt252 [.u32 x] [.felt (.ofNat x.toNat)] := by
  have hlt : x.toNat < prime := Nat.lt_trans x.toNat_lt (by decide)
  have hword : x.toBitVec.setWidth c.width = (Felt.ofNat x.toNat).word c.width := by
    rw [Felt.word_ofNat hlt]
    exact (BitVec.ofNat_toNat c.width x.toBitVec).symm
  simp [hword]

theorem computes_u32TryFromFelt252 (hw : 256 ≤ c.width) : Computes c .u32TryFromFelt252 [.felt a]
    [.bool (decide (a.canonical < UInt32.size)), .u32 (UInt32.ofNat a.canonical)] := by
  have hresidue := Felt.word_canonical a hw
  have hfits := Felt.ult_canonical a hw
  have hlow : (BitVec.ofNat c.width a.canonical).setWidth 32 =
      (UInt32.ofNat a.canonical).toBitVec :=
    BitVec.setWidth_ofNat_of_le (by omega) a.canonical
  simp [hresidue, hfits, hlow]

end Bodies

/-- On arguments of its parameter types a helper returns, and its body computes the same. -/
theorem exists_computes {i : Intrinsic} {c : Config} {args : List Scalar} (hw : 256 ≤ c.width)
    (htypes : args.map Scalar.ty = i.params)
    (hdivisor : i = .u32Divmod → ∀ a, args ≠ [.u32 a, .u32 0]) :
    ∃ results, i.compute args = .ok results ∧ Computes c i args results := by
  cases i with
  | dup ty =>
    obtain ⟨v, rfl, rfl⟩ := Scalar.exists_of_map_ty htypes
    exact ⟨_, rfl, computes_dup v⟩
  | storeTemp ty =>
    obtain ⟨v, rfl, rfl⟩ := Scalar.exists_of_map_ty htypes
    exact ⟨_, rfl, computes_storeTemp v⟩
  | rename ty =>
    obtain ⟨v, rfl, rfl⟩ := Scalar.exists_of_map_ty htypes
    exact ⟨_, rfl, computes_rename v⟩
  | felt252Mul =>
    obtain ⟨a, b, rfl⟩ := Scalar.exists_felts htypes
    exact ⟨_, rfl, computes_felt252Mul a b hw⟩
  | felt252Add =>
    obtain ⟨a, b, rfl⟩ := Scalar.exists_felts htypes
    exact ⟨_, rfl, computes_felt252Add a b hw⟩
  | felt252Sub =>
    obtain ⟨a, b, rfl⟩ := Scalar.exists_felts htypes
    exact ⟨_, rfl, computes_felt252Sub a b hw⟩
  | u32OverflowingAdd =>
    obtain ⟨x, y, rfl⟩ := Scalar.exists_u32s htypes
    exact ⟨_, rfl, computes_u32OverflowingAdd x y⟩
  | u32OverflowingSub =>
    obtain ⟨x, y, rfl⟩ := Scalar.exists_u32s htypes
    exact ⟨_, rfl, computes_u32OverflowingSub x y⟩
  | u32Divmod =>
    obtain ⟨x, y, rfl⟩ := Scalar.exists_u32s htypes
    have hy : y ≠ 0 := by
      rintro rfl
      exact hdivisor rfl x rfl
    exact ⟨_, if_neg hy, computes_u32Divmod x y hy⟩
  | u32ToFelt252 =>
    obtain ⟨v, rfl, hv⟩ := Scalar.exists_of_map_ty htypes
    obtain ⟨x, rfl⟩ := Scalar.exists_u32 hv
    exact ⟨_, rfl, computes_u32ToFelt252 x⟩
  | u32TryFromFelt252 =>
    obtain ⟨v, rfl, hv⟩ := Scalar.exists_of_map_ty htypes
    obtain ⟨a, rfl⟩ := Scalar.exists_felt hv
    exact ⟨_, rfl, computes_u32TryFromFelt252 a hw⟩

/-- Arguments of the declared types have the widths that the head prints. -/
theorem bindParams_zip (width : Nat) (args : List Scalar) (names : List String)
    (hlength : args.length ≤ names.length) :
    bindParams (((args.map Scalar.ty).zip names).map fun (ty, name) =>
      (ty.storageBits width, .reg name)) (args.map (Scalar.toWord width)) =
      some (names.zip (args.map (Scalar.toWord width))) := by
  induction args generalizing names with
  | nil => simp [bindParams]
  | cons v rest ih =>
    cases names with
    | nil => simp at hlength
    | cons name names =>
      have hwidth : (v.toWord width).width = v.ty.storageBits width := by cases v <;> rfl
      simp only [List.length_cons, Nat.add_le_add_iff_right] at hlength
      simp [bindParams, hwidth, ih names hlength]

/-- The text of a helper computes what its body does. -/
theorem run_definition {i : Intrinsic} {c : Config} {args : List Scalar}
    (htypes : args.map Scalar.ty = i.params) :
    run (i.definition c) (args.map (Scalar.toWord c.width)) = i.evalBody c args := by
  have hlength : args.length ≤ paramNames.length := by
    rw [← List.length_map (f := Scalar.ty), htypes]
    cases i <;> simp [Intrinsic.params, paramNames]
  have hbind := bindParams_zip c.width args paramNames hlength
  rw [htypes] at hbind
  simp only [run, definition?_definition, Option.bind_eq_bind, Option.bind_some, typedParams, hbind]
  rfl

end Helper

theorem Config.le_width_of_validate {c : Config} (h : c.validate = .ok ()) : 256 ≤ c.width := by
  unfold validate at h
  split at h
  · contradiction
  next hlow =>
    split at h
    · contradiction
    next haligned =>
      simp only [primeBits] at hlow
      omega

namespace Intrinsic

/-- Under a valid configuration the printed definition of a helper, read as code over words,
takes the words of well-typed arguments to the words of the results of the helper. -/
theorem definition_computes (i : Intrinsic) (c : Config) (args : List Scalar)
    (hvalid : c.validate = .ok ()) (htypes : args.map Scalar.ty = i.params)
    (hdivisor : i = .u32Divmod → ∀ a, args ≠ [.u32 a, .u32 0]) :
    ∃ results, i.compute args = .ok results ∧
      Helper.run (i.definition c) (args.map (Scalar.toWord c.width)) =
        some (results.map (Scalar.toWord c.width)) := by
  have hw := Config.le_width_of_validate hvalid
  obtain ⟨results, hcompute, hbody⟩ := Helper.exists_computes hw htypes hdivisor
  refine ⟨results, hcompute, ?_⟩
  rw [Helper.run_definition htypes]
  exact hbody

theorem u32Divmod_definition_computes :
    Helper.run (u32Divmod.definition {}) [⟨32, 17⟩, ⟨32, 5⟩] = some [⟨32, 3⟩, ⟨32, 2⟩] := by
  have hdivisor : u32Divmod = u32Divmod →
      ∀ a, [Scalar.u32 17, Scalar.u32 5] ≠ [.u32 a, .u32 0] := by
    simp
  obtain ⟨results, hcompute, hrun⟩ :=
    definition_computes u32Divmod {} [.u32 17, .u32 5] rfl rfl hdivisor
  cases hcompute
  exact hrun

end Intrinsic

end FieldSSA
