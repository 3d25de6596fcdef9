import Mathlib
import FieldSSA.Function.Bytes
import FieldSSA.Proofs.FeltDecoding
import FieldSSA.Proofs.Outcome

namespace FieldSSA

namespace Binary

theorem reads_constant {α : Type} {alternatives : List (Decoder α)} {i : Nat} {a : α}
    (hi : alternatives[i]? = some (pure a)) (hsize : i < 256 ^ 4) :
    Reads (variant alternatives) (variantIndex i) a := by
  rw [← List.append_nil (variantIndex i)]
  exact reads_variant hi hsize (.pure a)

theorem reads_index {α : Type} (mk : Nat → α) {n : Nat} (hn : n < 2 ^ 32) :
    Reads (mk <$> number 4) (littleEndian 4 n) (mk n) := by
  have hnumber : n < 256 ^ 4 := by simpa using hn
  exact (reads_number hnumber).map mk

end Binary

namespace LawfulBinary

open Binary

instance : LawfulBinary Ty where
  Fits _ := True
  reads := by
    rintro (_ | _ | _) _
    · exact reads_constant rfl (by decide)
    · exact reads_constant rfl (by decide)
    · exact reads_constant rfl (by decide)

instance : LawfulBinary Scalar where
  Fits _ := True
  reads := by
    rintro (v | v | v) _
    · exact reads_variant rfl (by decide) ((reads v trivial).map Scalar.felt)
    · exact reads_variant rfl (by decide) ((reads v trivial).map Scalar.u32)
    · exact reads_variant rfl (by decide) ((reads v trivial).map Scalar.bool)

instance : LawfulBinary Intrinsic where
  Fits _ := True
  reads := by
    intro i _
    cases i with
    | dup ty => exact reads_variant rfl (by decide) ((reads ty trivial).map Intrinsic.dup)
    | storeTemp ty =>
        exact reads_variant rfl (by decide) ((reads ty trivial).map Intrinsic.storeTemp)
    | rename ty => exact reads_variant rfl (by decide) ((reads ty trivial).map Intrinsic.rename)
    | felt252Mul | felt252Add | felt252Sub | u32OverflowingAdd | u32OverflowingSub | u32Divmod
    | u32ToFelt252 | u32TryFromFelt252 => exact reads_constant rfl (by decide)

instance : LawfulBinary ValueId where
  Fits v := v.index < 2 ^ 32
  reads _ hv := reads_index ValueId.mk hv

instance : LawfulBinary BlockId where
  Fits b := b.index < 2 ^ 32
  reads _ hb := reads_index BlockId.mk hb

instance : LawfulBinary Predicate where
  Fits _ := True
  reads := by
    rintro (_ | _ | _ | _) _
    · exact reads_constant rfl (by decide)
    · exact reads_constant rfl (by decide)
    · exact reads_constant rfl (by decide)
    · exact reads_constant rfl (by decide)

instance : LawfulBinary Instruction where
  Fits
    | .const result _ => Fits result
    | .cmp result _ lhs rhs => Fits result ∧ Fits lhs ∧ Fits rhs
    | .call _ args results => Fits args ∧ Fits results
  reads := by
    intro i hi
    cases i with
    | const result imm =>
        show Reads _ (variantIndex 0 ++ encode result ++ encode imm) _
        rw [List.append_assoc]
        apply reads_variant rfl (by decide)
        apply (reads result hi).bind
        exact (reads imm trivial).finish (.pure _)
    | cmp result pred lhs rhs =>
        obtain ⟨hresult, hlhs, hrhs⟩ := hi
        show Reads _ (variantIndex 1 ++ encode result ++ encode pred ++ encode lhs ++ encode rhs) _
        rw [List.append_assoc, List.append_assoc, List.append_assoc]
        apply reads_variant rfl (by decide)
        apply (reads result hresult).bind
        apply (reads pred trivial).bind
        apply (reads lhs hlhs).bind
        exact (reads rhs hrhs).finish (.pure _)
    | call callee args results =>
        obtain ⟨hargs, hresults⟩ := hi
        show Reads _ (variantIndex 2 ++ encode callee ++ encode args ++ encode results) _
        rw [List.append_assoc, List.append_assoc]
        apply reads_variant rfl (by decide)
        apply (reads callee trivial).bind
        apply (reads args hargs).bind
        exact (reads results hresults).finish (.pure _)

instance : LawfulBinary Edge where
  Fits e := Fits e.dest ∧ Fits e.args
  reads := by
    rintro e ⟨hdest, hargs⟩
    apply (reads e.dest hdest).bind
    exact (reads e.args hargs).finish (.pure e)

instance : LawfulBinary Terminator where
  Fits
    | .br edge => Fits edge
    | .condBr cond onTrue onFalse => Fits cond ∧ Fits onTrue ∧ Fits onFalse
    | .ret values => Fits values
  reads := by
    intro t ht
    cases t with
    | br edge =>
        apply reads_variant rfl (by decide)
        exact (reads edge ht).finish (.pure _)
    | condBr cond onTrue onFalse =>
        obtain ⟨hcond, htrue, hfalse⟩ := ht
        show Reads _ (variantIndex 1 ++ encode cond ++ encode onTrue ++ encode onFalse) _
        rw [List.append_assoc, List.append_assoc]
        apply reads_variant rfl (by decide)
        apply (reads cond hcond).bind
        apply (reads onTrue htrue).bind
        exact (reads onFalse hfalse).finish (.pure _)
    | ret values =>
        apply reads_variant rfl (by decide)
        exact (reads values ht).finish (.pure _)

instance : LawfulBinary Block where
  Fits b := Fits b.id ∧ Fits b.params ∧ Fits b.instructions ∧ Fits b.terminator
  reads := by
    rintro b ⟨hid, hparams, hinstructions, hterminator⟩
    show Reads _ (encode b.id ++ encode b.params ++ encode b.instructions ++
      encode b.terminator) _
    rw [List.append_assoc, List.append_assoc]
    apply (reads b.id hid).bind
    apply (reads b.params hparams).bind
    apply (reads b.instructions hinstructions).bind
    exact (reads b.terminator hterminator).finish (.pure b)

instance : LawfulBinary Signature where
  Fits s := Fits s.name ∧ Fits s.params ∧ Fits s.returns
  reads := by
    rintro s ⟨hname, hparams, hreturns⟩
    show Reads _ (encode s.name ++ encode s.params ++ encode s.returns) _
    rw [List.append_assoc]
    apply (reads s.name hname).bind
    apply (reads s.params hparams).bind
    exact (reads s.returns hreturns).finish (.pure s)

instance : LawfulBinary Function where
  Fits f := Fits f.signature ∧ Fits f.blocks ∧ Fits f.valueTypes
  reads := by
    rintro f ⟨hsignature, hblocks, htypes⟩
    show Reads _ (encode f.signature ++ encode f.blocks ++ encode f.valueTypes) _
    rw [List.append_assoc]
    apply (reads f.signature hsignature).bind
    apply (reads f.blocks hblocks).bind
    exact (reads f.valueTypes htypes).finish (.pure f)

end LawfulBinary

namespace Function

open LawfulBinary

variable {f : Function}

theorem decodeBytes_toBytes_append (hf : Fits f) (rest : List UInt8) :
    decodeBytes (f.toBytes ++ rest) = .ok f := by
  rw [decodeBytes, toBytes, (reads f hf).complete rest]

theorem toBytes_injective_of_fits {g : Function} (hf : Fits f) (hg : Fits g)
    (h : g.toBytes = f.toBytes) : g = f := by
  have hread := decodeBytes_toBytes_append hg []
  rw [h, decodeBytes_toBytes_append hf] at hread
  exact (Except.ok.inj hread).symm

theorem ofBytes_of_decodeBytes {bytes : List UInt8} (h : decodeBytes bytes = .ok f) :
    ofBytes bytes =
      if f.verify.errors = [] then .ok f else .error (.verification f.name f.verify.errors) := by
  simp only [ofBytes, h, ok_bind, verified, Report.isValid, List.isEmpty_iff]
  split <;> rfl

/-- The bytes of a function, whatever follows them, are decoded to that function, so no other
function has them; decoding with verification gives the function or reports its errors. -/
theorem ofBytes_toBytes_append (f : Function) (hf : Fits f) (rest : List UInt8) :
    decodeBytes (f.toBytes ++ rest) = .ok f ∧
      (∀ g : Function, Fits g → g.toBytes = f.toBytes → g = f) ∧
      ofBytes (f.toBytes ++ rest) =
        if f.verify.errors = [] then .ok f
        else .error (.verification f.name f.verify.errors) := by
  have hdecode := decodeBytes_toBytes_append hf rest
  refine ⟨hdecode, ?_, ofBytes_of_decodeBytes hdecode⟩
  intro g hg h
  exact toBytes_injective_of_fits hf hg h

/-- Constants below, at and above zero, and a return of one value too many. -/
def surplusReturn : Function where
  signature := ⟨"größer", [], [.felt252]⟩
  blocks :=
    [⟨⟨0⟩, [],
        [.const ⟨0⟩ (.felt (.ofInt (-0x1ab))), .const ⟨1⟩ (.felt .zero),
          .const ⟨2⟩ (.felt (.ofNat (prime - 1)))],
        .br ⟨⟨1⟩, [⟨0⟩]⟩⟩,
      ⟨⟨1⟩, [⟨3⟩], [], .ret [⟨3⟩, ⟨3⟩]⟩]
  valueTypes := [.felt252, .felt252, .felt252, .felt252]

theorem surplusReturn_fits : Fits surplusReturn := by
  have hname : (Binary.utf8 "größer").length < 2 ^ 64 := by decide
  simpa [Fits, surplusReturn] using hname

theorem surplusReturn_ofBytes :
    Fits surplusReturn ∧ decodeBytes (surplusReturn.toBytes ++ [0xff]) = .ok surplusReturn ∧
      ofBytes (surplusReturn.toBytes ++ [0xff]) =
        .error (.verification "größer" [.returnArity ⟨1⟩ 1 2]) := by
  have herrors : surplusReturn.verify.errors = [.returnArity ⟨1⟩ 1 2] := by cbv
  obtain ⟨hdecode, -, hverify⟩ :=
    ofBytes_toBytes_append surplusReturn surplusReturn_fits [0xff]
  rw [herrors, if_neg (by simp)] at hverify
  exact ⟨surplusReturn_fits, hdecode, hverify⟩

theorem ofBytes_of_prefix {bytes : List UInt8} (hf : Fits f) (h : bytes <+: f.toBytes)
    (hne : bytes ≠ f.toBytes) : ofBytes bytes = .error (.encoding .endOfInput) := by
  have hshort : bytes.length < f.toBytes.length :=
    Nat.lt_of_le_of_ne h.length_le fun hlength => hne (h.eq_of_length hlength)
  have hread := (reads f hf).truncated bytes.length hshort
  rw [← toBytes, ← List.prefix_iff_eq_take.mp h] at hread
  rw [ofBytes, decodeBytes, hread]
  rfl

/-- Less than the bytes of a function is rejected for want of bytes and for no other reason, so the
bytes of one function never begin those of another. -/
theorem ofBytes_truncated (f : Function) (hf : Fits f) :
    (∀ bytes, bytes <+: f.toBytes → bytes ≠ f.toBytes →
      ofBytes bytes = .error (.encoding .endOfInput)) ∧
      ∀ g : Function, Fits g → g.toBytes <+: f.toBytes → g = f := by
  refine ⟨fun bytes => ofBytes_of_prefix hf, ?_⟩
  intro g hg h
  by_contra hne
  have hcut := ofBytes_of_prefix hf h fun heq => hne (toBytes_injective_of_fits hf hg heq)
  have hread := decodeBytes_toBytes_append hg []
  rw [List.append_nil] at hread
  rw [ofBytes_of_decodeBytes hread] at hcut
  split at hcut <;> cases hcut

/-- The cut is in the digits of the first constant. -/
theorem surplusReturn_truncated :
    Fits surplusReturn ∧ surplusReturn.toBytes.take 88 <+: surplusReturn.toBytes ∧
      ofBytes (surplusReturn.toBytes.take 88) = .error (.encoding .endOfInput) := by
  have hlength : 88 < surplusReturn.toBytes.length := by decide +kernel
  have hne : surplusReturn.toBytes.take 88 ≠ surplusReturn.toBytes := by
    intro heq
    have hsame := congrArg List.length heq
    rw [List.length_take] at hsame
    omega
  have hprefix := List.take_prefix 88 surplusReturn.toBytes
  exact ⟨surplusReturn_fits, hprefix,
    (ofBytes_truncated surplusReturn surplusReturn_fits).1 _ hprefix hne⟩

end Function

end FieldSSA
