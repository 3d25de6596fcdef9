import Mathlib.Data.Nat.Digits.Defs
import Mathlib.Data.Set.List
import FieldSSA.Felt.Decimal
import FieldSSA.Proofs.FieldArithmetic

namespace FieldSSA

/-- A literal by its parts: whether it has a sign, and its digits, highest first. Leading zeros are
allowed. -/
structure Literal where
  negative : Bool
  digits : List (Fin 10)
  digits_ne_nil : digits ≠ []

def signText (negative : Bool) : String :=
  if negative then "-" else ""

namespace Literal

variable (l : Literal)

def chars : List Char :=
  l.digits.map fun d => d.val.digitChar

def text : String :=
  signText l.negative ++ String.ofList l.chars

/-- The number that the digits denote, the last digit in the place of ones. -/
def number : Nat :=
  Nat.ofDigits 10 (l.digits.reverse.map Fin.val)

/-- The integer that a literal denotes, before reduction. -/
def value : Int :=
  signed l.negative l.number

theorem chars_ne_nil : l.chars ≠ [] := by
  simpa [chars] using l.digits_ne_nil

theorem all_isDigit_chars : l.chars.all Char.isDigit = true := by
  simp [chars, Nat.isDigit_digitChar]

/-- Digits that are read from the front get their place values. -/
theorem digitsValue_chars : Felt.digitsValue l.chars = l.number := by
  rw [Felt.digitsValue, chars, number, List.foldl_map, Nat.ofDigits_eq_foldr, List.map_reverse,
    List.foldr_reverse, List.foldl_map]
  congr 1
  funext n d
  have hd : d.val.digitChar.toNat - '0'.toNat = d.val :=
    Nat.toNat_digitChar_sub_48_of_lt_ten d.isLt
  rw [hd, Nat.add_comm, Nat.cast_id]

theorem exists_digit {c : Char} (h : c.isDigit = true) : ∃ d : Fin 10, d.val.digitChar = c := by
  obtain ⟨hlow, hhigh⟩ : 48 ≤ c.toNat ∧ c.toNat ≤ 57 := by
    simpa [Char.isDigit, UInt32.le_iff_toNat_le] using h
  refine ⟨⟨c.toNat - 48, by omega⟩, Char.toNat_inj.mp ?_⟩
  rw [Nat.toNat_digitChar_of_lt_ten (by omega), Nat.add_sub_cancel' hlow]

theorem exists_text (negative : Bool) {cs : List Char} (hne : cs ≠ [])
    (hdigits : cs.all Char.isDigit = true) :
    ∃ l : Literal, l.text = signText negative ++ String.ofList cs ∧ l.negative = negative ∧
      l.number = Felt.digitsValue cs := by
  obtain ⟨ds, rfl⟩ : ∃ ds : List (Fin 10), ds.map (fun d => d.val.digitChar) = cs := by
    rw [← Set.mem_range, Set.range_list_map]
    intro c hc
    exact exists_digit (List.all_eq_true.mp hdigits c hc)
  let l : Literal := ⟨negative, ds, by simpa using hne⟩
  exact ⟨l, rfl, rfl, l.digitsValue_chars.symm⟩

end Literal

namespace Felt

section Reading

variable {s : String} {a : Felt} {negative : Bool} {cs : List Char}

/-- What is left of a text after its sign: after none, it does not begin with a minus. -/
def AfterSign (negative : Bool) (cs : List Char) : Prop :=
  negative = false → ∀ rest, cs ≠ '-' :: rest

theorem exists_afterSign (s : String) :
    ∃ negative cs, AfterSign negative cs ∧ s = signText negative ++ String.ofList cs := by
  by_cases h : ∃ cs, s.toList = '-' :: cs
  · obtain ⟨cs, hcs⟩ := h
    refine ⟨true, cs, nofun, String.toList_inj.mp ?_⟩
    simpa [signText] using hcs
  · refine ⟨false, s.toList, fun _ cs hcs => h ⟨cs, hcs⟩, ?_⟩
    simp [signText]

theorem afterSign_of_all_isDigit (h : cs.all Char.isDigit = true) : AfterSign negative cs := by
  rintro - rest rfl
  simp at h

theorem magnitude?_eq_some_iff {n : Nat} :
    magnitude? cs = some n ↔
      cs ≠ [] ∧ cs.all Char.isDigit = true ∧ digitsValue cs < 2 ^ 256 ∧ digitsValue cs = n := by
  have hbound : literalBound = 2 ^ 256 := by decide
  rw [magnitude?, hbound]
  constructor
  · intro h
    split at h
    · rename_i hliteral
      exact ⟨hliteral.1, hliteral.2.1, hliteral.2.2, Option.some.inj h⟩
    · cases h
  · rintro ⟨hne, hdigits, hlt, rfl⟩
    rw [if_pos ⟨hne, hdigits, hlt⟩]

/-- After its sign, a text is read by its magnitude alone. -/
theorem ofDecimal_sign_append (h : AfterSign negative cs) :
    ofDecimal (signText negative ++ String.ofList cs) =
      (magnitude? cs).elim (.error ⟨signText negative ++ String.ofList cs⟩)
        fun n => .ok (ofSignMagnitude negative n) := by
  unfold ofDecimal
  rw [String.toList_append, String.toList_ofList]
  cases negative with
  | true =>
      simp only [signText, if_true, String.reduceToList, List.cons_append, List.nil_append]
      cases magnitude? cs <;> rfl
  | false =>
      -- excludes the first case of the reader for `simp`
      have hplain : ∀ rest, cs = '-' :: rest → False := h rfl
      simp only [signText, Bool.false_eq_true, if_false, String.toList_empty, List.nil_append]
      cases magnitude? cs <;> rfl

theorem ofDecimal_sign_append_eq_ok_iff (h : AfterSign negative cs) :
    ofDecimal (signText negative ++ String.ofList cs) = .ok a ↔
      ∃ n, magnitude? cs = some n ∧ ofSignMagnitude negative n = a := by
  rw [ofDecimal_sign_append h]
  cases magnitude? cs <;> simp

theorem ofDecimal_eq_ok_iff :
    ofDecimal s = .ok a ↔
      ∃ l : Literal, l.text = s ∧ l.number < 2 ^ 256 ∧ ofSignMagnitude l.negative l.number = a := by
  constructor
  · intro h
    obtain ⟨negative, cs, hsign, rfl⟩ := exists_afterSign s
    obtain ⟨n, hn, rfl⟩ := (ofDecimal_sign_append_eq_ok_iff hsign).mp h
    obtain ⟨hne, hdigits, hlt, rfl⟩ := magnitude?_eq_some_iff.mp hn
    obtain ⟨l, htext, hnegative, hnumber⟩ := Literal.exists_text negative hne hdigits
    exact ⟨l, htext, hnumber ▸ hlt, by rw [hnegative, hnumber]⟩
  · rintro ⟨l, rfl, hlt, rfl⟩
    have hsign : AfterSign l.negative l.chars := afterSign_of_all_isDigit l.all_isDigit_chars
    refine (ofDecimal_sign_append_eq_ok_iff hsign).mpr ?_
    rw [← l.digitsValue_chars] at hlt ⊢
    exact ⟨_, magnitude?_eq_some_iff.mpr ⟨l.chars_ne_nil, l.all_isDigit_chars, hlt, rfl⟩, rfl⟩

end Reading

theorem ofSignMagnitude_self (a : Felt) : ofSignMagnitude a.negative a.magnitude = a := by
  rw [← toInt_inj, toInt_ofSignMagnitude, ← toInt_eq_signed, toInt_tmod]

theorem ofSignMagnitude_of_dvd {negative : Bool} {n : Nat} (h : prime ∣ n) :
    ofSignMagnitude negative n = zero := by
  have hmod : n % prime = 0 := Nat.mod_eq_zero_of_dvd h
  simp [ofSignMagnitude, zero, ofNat, hmod]

/-- An element is printed as a literal of its sign and magnitude. -/
theorem exists_literal_toDecimal (a : Felt) :
    ∃ l : Literal, l.text = a.toDecimal ∧ l.negative = a.negative ∧ l.number = a.magnitude := by
  have hdigits : (Nat.toDigits 10 a.magnitude).all Char.isDigit = true :=
    List.all_eq_true.mpr fun c hc => Nat.isDigit_of_mem_toDigits (by decide) (by decide) hc
  obtain ⟨l, htext, hnegative, hnumber⟩ :=
    Literal.exists_text a.negative Nat.toDigits_ne_nil hdigits
  refine ⟨l, ?_, hnegative, ?_⟩
  · rw [htext, toDecimal, Nat.repr_eq_ofList_toDigits]
    rfl
  · rw [hnumber]
    exact Nat.ofDigitChars_toDigits (by decide) (by decide)

theorem ofDecimal_toDecimal (a : Felt) : ofDecimal a.toDecimal = .ok a := by
  obtain ⟨l, htext, hnegative, hnumber⟩ := exists_literal_toDecimal a
  refine ofDecimal_eq_ok_iff.mpr ⟨l, htext, ?_, ?_⟩
  · rw [hnumber]
    exact Nat.lt_trans a.magnitude_lt_two_pow (by decide)
  · rw [hnegative, hnumber, ofSignMagnitude_self]

/-- A text is read exactly if it is a literal of a number below `2^256`, and then as the remainder
of what it denotes, which is zero without a sign for multiples of the order; and every element is
read back from its own text. -/
theorem literals_read_exactly :
    (∀ (s : String) (a : Felt), ofDecimal s = .ok a ↔
      ∃ l : Literal, l.text = s ∧ l.number < 2 ^ 256 ∧ a.toInt = l.value.tmod prime) ∧
    (∀ s : String, (∃ a, ofDecimal s = .ok a) ↔ ∃ l : Literal, l.text = s ∧ l.number < 2 ^ 256) ∧
    (∀ l : Literal, l.number < 2 ^ 256 → prime ∣ l.number → ofDecimal l.text = .ok zero) ∧
    ∀ a : Felt, ofDecimal a.toDecimal = .ok a := by
  refine ⟨fun s a => ?_, fun s => ?_, fun l hlt hdvd => ?_, ofDecimal_toDecimal⟩
  · have hvalue (l : Literal) :
        ofSignMagnitude l.negative l.number = a ↔ a.toInt = l.value.tmod prime := by
      rw [← toInt_inj, toInt_ofSignMagnitude, eq_comm]
      rfl
    simp only [ofDecimal_eq_ok_iff, hvalue]
  · constructor
    · rintro ⟨a, ha⟩
      obtain ⟨l, htext, hlt, -⟩ := ofDecimal_eq_ok_iff.mp ha
      exact ⟨l, htext, hlt⟩
    · rintro ⟨l, htext, hlt⟩
      exact ⟨_, ofDecimal_eq_ok_iff.mpr ⟨l, htext, hlt, rfl⟩⟩
  · exact ofDecimal_eq_ok_iff.mpr ⟨l, rfl, hlt, ofSignMagnitude_of_dvd hdvd⟩

/-- The order of the field with a sign, a literal that is not reduced. -/
def negatedOrder : Literal :=
  ⟨true, [3, 6, 1, 8, 5, 0, 2, 7, 8, 8, 6, 6, 6, 1, 3, 1, 2, 1, 3, 6, 9, 7, 3, 2, 2, 7, 8, 3, 0, 9,
    5, 0, 7, 0, 1, 0, 5, 6, 2, 3, 1, 0, 7, 2, 1, 5, 3, 3, 1, 5, 9, 6, 6, 9, 9, 9, 7, 3, 0, 9,
    2, 0, 5, 6, 1, 3, 5, 8, 7, 2, 0, 2, 0, 4, 8, 1],
    by simp⟩

theorem negatedOrder_read :
    negatedOrder.text = "-" ++ prime.repr ∧ ofDecimal negatedOrder.text = .ok zero := by
  have hnumber : negatedOrder.number = prime := by decide +kernel
  have hlt : negatedOrder.number < 2 ^ 256 := by
    rw [hnumber]
    decide
  exact ⟨by decide, literals_read_exactly.2.2.1 negatedOrder hlt (by rw [hnumber])⟩

example : ofDecimal "-0" = .ok zero ∧ ofDecimal "-007" = .ok (-ofNat 7) ∧
    ofDecimal "--1" = .error ⟨"--1"⟩ := by decide

end Felt

end FieldSSA
