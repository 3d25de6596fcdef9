import FieldSSA.Binary.Felt
import FieldSSA.Proofs.Decoding

namespace FieldSSA

namespace Binary

/-- The number that hexadecimal digits denote when they follow `start`, highest first. -/
def hexValue (start : Nat) (digits : List Nat) : Nat :=
  digits.foldl (fun n d => 16 * n + d) start

def digitByte (d : Nat) : UInt8 :=
  UInt8.ofNat d.digitChar.toNat

theorem nibble?_digitByte : ∀ d < 16, nibble? (digitByte d) = some d := by
  decide

theorem utf8EncodeChar_digitChar : ∀ d < 16,
    String.utf8EncodeChar d.digitChar = [digitByte d] := by
  decide

theorem exists_digits (n : Nat) : ∃ ds : List Nat,
    Nat.toDigits 16 n = ds.map Nat.digitChar ∧ (∀ d ∈ ds, d < 16) ∧ hexValue 0 ds = n := by
  induction n using Nat.base_induction 16 (by decide) with
  | single m hm => exact ⟨[m], Nat.toDigits_of_lt_base hm, by simpa, by simp [hexValue]⟩
  | digit m k hk hm ih =>
      obtain ⟨ds, hdigits, hlt, hvalue⟩ := ih
      refine ⟨ds ++ [k], ?_, ?_, ?_⟩
      · rw [← Nat.toDigits_append_toDigits (by decide) hm hk, Nat.toDigits_of_lt_base hk,
          hdigits, List.map_append, List.map_singleton]
      · exact List.forall_mem_append.mpr ⟨hlt, by simpa⟩
      · rw [← hvalue]
        simp [hexValue, List.foldl_append]

/-- Digits in step with `half`: an open pair needs an odd number of them. Its upper half
counts as a digit that was read. -/
theorem joinDigits_eq {ds : List Nat} (hds : ∀ d ∈ ds, d < 16) (index : Nat) (half : Bool)
    (high value : Nat) (hpairs : ds.length % 2 = half.toNat) :
    joinDigits index half high value (ds.map digitByte) =
      .ok (hexValue (if half then 16 * value + high else value) ds) := by
  induction ds generalizing index half high value with
  | nil =>
      cases half with
      | false => rfl
      | true => simp at hpairs
  | cons d rest ih =>
      obtain ⟨hd, hrest⟩ := List.forall_mem_cons.mp hds
      rw [List.length_cons] at hpairs
      simp only [List.map_cons, joinDigits, nibble?_digitByte d hd]
      cases half with
      | false =>
          have hodd : rest.length % 2 = true.toNat := by
            simp only [Bool.toNat_false, Bool.toNat_true] at hpairs ⊢
            omega
          rw [if_neg Bool.false_ne_true, ih hrest _ true d value hodd]
          rfl
      | true =>
          have heven : rest.length % 2 = false.toNat := by
            simp only [Bool.toNat_false, Bool.toNat_true] at hpairs ⊢
            omega
          have hjoin : 256 * value + (16 * high + d) = 16 * (16 * value + high) + d := by omega
          rw [if_pos rfl, ih hrest _ false d _ heven, hjoin]
          rfl

theorem flatMap_digitChar {ds : List Nat} (hds : ∀ d ∈ ds, d < 16) :
    (ds.map Nat.digitChar).flatMap String.utf8EncodeChar = ds.map digitByte := by
  induction ds with
  | nil => rfl
  | cons d rest ih =>
      obtain ⟨hd, hrest⟩ := List.forall_mem_cons.mp hds
      rw [List.map_cons, List.flatMap_cons, utf8EncodeChar_digitChar d hd, ih hrest]
      rfl

theorem utf8_ofList (cs : List Char) :
    utf8 (String.ofList cs) = cs.flatMap String.utf8EncodeChar := by
  simp [utf8, List.utf8Encode]

theorem utf8_magnitudeText (n : Nat) :
    utf8 (magnitudeText n) =
      0x30 :: 0x78 :: (Nat.toDigits 16 n).flatMap String.utf8EncodeChar := by
  have htext : magnitudeText n = String.ofList ('0' :: 'x' :: Nat.toDigits 16 n) :=
    String.ofList_append.symm
  rw [htext, utf8_ofList, List.flatMap_cons, List.flatMap_cons]
  rfl

/-- The text of a number below `2 ^ 256` is the mark and at most 64 digits. -/
theorem exists_digitBytes {n : Nat} (hn : n < 16 ^ 64) : ∃ ds : List Nat,
    utf8 (magnitudeText n) = 0x30 :: 0x78 :: ds.map digitByte ∧ (∀ d ∈ ds, d < 16) ∧
      hexValue 0 ds = n ∧ 0 < ds.length ∧ ds.length ≤ 64 := by
  obtain ⟨ds, hdigits, hds, hvalue⟩ := exists_digits n
  have hlength : (Nat.toDigits 16 n).length = ds.length := by rw [hdigits, List.length_map]
  refine ⟨ds, ?_, hds, hvalue, ?_, ?_⟩
  · rw [utf8_magnitudeText, hdigits, flatMap_digitChar hds]
  · rw [← hlength]
    exact Nat.length_toDigits_pos
  · rw [← hlength]
    exact (Nat.length_toDigits_le_iff (by decide) (by decide)).mpr hn

theorem ofMagnitudeText_magnitudeText {n : Nat} (hn : n < 16 ^ 64) :
    ofMagnitudeText (magnitudeText n) = .ok n := by
  obtain ⟨ds, hbytes, hds, hvalue, hpos, hmost⟩ := exists_digitBytes hn
  have hcount : ¬ (ds.length = 0 ∨ 64 < ds.length) := by omega
  have hpairs : ds.length % 2 = (ds.length % 2 == 1).toNat := by
    rcases Nat.mod_two_eq_zero_or_one ds.length with h | h <;> rw [h] <;> rfl
  -- The first pair starts with nothing read, so an odd count only adds a zero in front.
  simp only [ofMagnitudeText, hbytes, ofDigits, List.length_map, hcount, if_false,
    joinDigits_eq hds _ _ _ _ hpairs, Nat.mul_zero, Nat.add_zero, ite_self, hvalue]

theorem length_utf8_magnitudeText {n : Nat} (hn : n < 16 ^ 64) :
    (utf8 (magnitudeText n)).length ≤ 66 := by
  obtain ⟨ds, hbytes, -, -, -, hmost⟩ := exists_digitBytes hn
  rw [hbytes, List.length_cons, List.length_cons, List.length_map]
  omega

end Binary

theorem Felt.ofReduced_self (a : Felt) : Felt.ofReduced a.negative a.magnitude = .ok a := by
  have hzero : ¬ (a.negative = true ∧ a.magnitude = 0) := fun h => a.magnitude_ne_zero h.1 h.2
  rw [Felt.ofReduced, dif_pos a.magnitude_lt, dif_neg hzero]

instance : LawfulBinary Felt where
  Fits _ := True
  reads := by
    intro a _
    have hn : a.magnitude < 16 ^ 64 := Nat.lt_trans a.magnitude_lt (by decide)
    have htext : LawfulBinary.Fits (Binary.magnitudeText a.magnitude) :=
      Nat.lt_of_le_of_lt (Binary.length_utf8_magnitudeText hn) (by decide)
    apply (LawfulBinary.reads a.negative trivial).bind
    apply (LawfulBinary.reads (Binary.magnitudeText a.magnitude) htext).finish
    rw [Binary.ofMagnitudeText_magnitudeText hn]
    apply (Reads.pure a.magnitude).finish
    rw [Felt.ofReduced_self]
    exact .pure a

end FieldSSA
