import Mathlib.Algebra.Group.Nat.Defs
import FieldSSA.Binary.Basic

/-!
What decoders do on the bytes of a value: they take these bytes and leave the rest, and on
less than these bytes they come to the end of the input. Both pass from the parts of a format
to the whole, so a type has them as soon as its fields have.
-/

namespace FieldSSA

variable {α β : Type} {d : Decoder α} {bytes : List UInt8} {a : α}

/-- The bytes hold a value for a decoder, and no fewer of them do. -/
structure Reads (d : Decoder α) (bytes : List UInt8) (a : α) : Prop where
  complete : ∀ rest, d.run (bytes ++ rest) = .ok (a, rest)
  truncated : ∀ n < bytes.length, d.run (bytes.take n) = .error .endOfInput

namespace Reads

theorem pure (a : α) : Reads (pure a) [] a := by
  constructor
  · intro rest
    rfl
  · intro n hn
    simp at hn

theorem bind {g : α → Decoder β} {more : List UInt8} {b : β} (h : Reads d bytes a)
    (hg : Reads (g a) more b) : Reads (d >>= g) (bytes ++ more) b := by
  constructor
  · intro rest
    rw [List.append_assoc, StateT.run_bind, h.complete]
    exact hg.complete rest
  · intro n hn
    rw [List.take_append, StateT.run_bind]
    rcases Nat.lt_or_ge n bytes.length with hlt | hge
    · rw [Nat.sub_eq_zero_of_le (Nat.le_of_lt hlt), List.take_zero, List.append_nil, h.truncated n hlt]
      rfl
    · have hmore : n - bytes.length < more.length := by
        rw [List.length_append] at hn
        omega
      rw [List.take_of_length_le hge, h.complete]
      exact hg.truncated _ hmore

/-- What comes after the last bytes reads nothing more. -/
theorem finish {g : α → Decoder β} {b : β} (h : Reads d bytes a) (hg : Reads (g a) [] b) :
    Reads (d >>= g) bytes b := by
  rw [← List.append_nil bytes]
  exact h.bind hg

theorem map (g : α → β) (h : Reads d bytes a) : Reads (g <$> d) bytes (g a) := by
  rw [← bind_pure_comp]
  exact h.finish (pure (g a))

end Reads

namespace Binary

theorem length_littleEndian (size n : Nat) : (littleEndian size n).length = size := by
  induction size generalizing n with
  | zero => rfl
  | succ size ih => simp [littleEndian, ih]

theorem ofLittleEndian_littleEndian {size n : Nat} (h : n < 256 ^ size) :
    ofLittleEndian (littleEndian size n) = n := by
  induction size generalizing n with
  | zero =>
      have hzero : n = 0 := by simpa using h
      rw [hzero]
      rfl
  | succ size ih =>
      have hless : n / 256 < 256 ^ size := by
        apply Nat.div_lt_of_lt_mul
        rwa [Nat.pow_succ'] at h
      simp only [littleEndian, ofLittleEndian, ih hless, UInt8.toNat_ofNat']
      omega

theorem reads_take (bytes : List UInt8) : Reads (take bytes.length) bytes bytes := by
  constructor
  · intro rest
    simp [take, StateT.run]
  · intro n hn
    have hshort : ¬ bytes.length ≤ (bytes.take n).length := by
      rw [List.length_take]
      omega
    simp only [take, StateT.run, hshort, if_false]

theorem reads_number {size n : Nat} (h : n < 256 ^ size) :
    Reads (number size) (littleEndian size n) n := by
  have htake := (reads_take (littleEndian size n)).map ofLittleEndian
  rwa [length_littleEndian, ofLittleEndian_littleEndian h] at htake

theorem reads_variant {alternatives : List (Decoder α)} {i : Nat}
    (hi : alternatives[i]? = some d) (hsize : i < 256 ^ 4) (h : Reads d bytes a) :
    Reads (variant alternatives) (variantIndex i ++ bytes) a := by
  apply (reads_number hsize).bind
  simp only [hi]
  exact h

theorem reads_repeated {encode : α → List UInt8} {xs : List α}
    (h : ∀ x ∈ xs, Reads d (encode x) x) :
    Reads (repeated d xs.length) (xs.flatMap encode) xs := by
  induction xs with
  | nil => exact .pure []
  | cons x rest ih =>
      obtain ⟨hx, hrest⟩ := List.forall_mem_cons.mp h
      exact hx.bind ((ih hrest).map (x :: ·))

end Binary

/-- Types whose decoder reads what their encoder writes, as long as numbers and lengths have
room in the format. -/
class LawfulBinary (α : Type) [Binary α] where
  Fits : α → Prop
  reads : ∀ a, Fits a → Reads Binary.decode (Binary.encode a) a

namespace LawfulBinary

open Binary

instance [Binary α] [LawfulBinary α] : LawfulBinary (List α) where
  Fits xs := xs.length < 2 ^ 64 ∧ ∀ x ∈ xs, Fits x
  reads := by
    rintro xs ⟨hlength, hxs⟩
    have hnumber : xs.length < 256 ^ 8 := by simpa using hlength
    exact (reads_number hnumber).bind (reads_repeated fun x hx => reads x (hxs x hx))

instance : LawfulBinary Bool where
  Fits _ := True
  reads := by
    intro b _
    apply (reads_take [if b then 1 else 0]).finish
    cases b with
    | false => exact .pure false
    | true => exact .pure true

instance : LawfulBinary UInt32 where
  Fits _ := True
  reads := by
    intro n _
    have hnumber : n.toNat < 256 ^ 4 := n.toNat_lt
    have hread := (reads_number hnumber).map UInt32.ofNat
    rwa [UInt32.ofNat_toNat] at hread

theorem fromUTF8?_utf8 (s : String) : String.fromUTF8? ⟨(utf8 s).toArray⟩ = some s := by
  show String.fromUTF8? s.toUTF8 = some s
  simp only [String.fromUTF8?, String.toUTF8_eq_toByteArray, dif_pos s.isValidUTF8]
  rfl

instance : LawfulBinary String where
  Fits s := (utf8 s).length < 2 ^ 64
  reads := by
    intro s hlength
    have hnumber : (utf8 s).length < 256 ^ 8 := by simpa using hlength
    apply (reads_number hnumber).bind
    apply (reads_take (utf8 s)).finish
    simp only [fromUTF8?_utf8]
    exact .pure s

end LawfulBinary

end FieldSSA
