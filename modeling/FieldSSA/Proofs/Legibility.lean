import FieldSSA.Proofs.HelperReading
import FieldSSA.Proofs.Outcome

namespace FieldSSA

/-- A list that does not begin with an element of a kind. -/
def Stops {α : Type} (kind : α → Bool) (s : List α) : Prop :=
  ∀ a ∈ s.head?, kind a = false

section Stops

variable {α : Type} {kind : α → Bool} {xs ys s t : List α}

@[simp]
theorem stops_nil : Stops kind [] := by
  simp [Stops]

@[simp]
theorem stops_cons {a : α} : Stops kind (a :: s) ↔ kind a = false := by
  simp [Stops]

theorem takeWhile_append_of_stops (hxs : ∀ a ∈ xs, kind a) (hs : Stops kind s) :
    (xs ++ s).takeWhile kind = xs := by
  rw [List.takeWhile_append_of_pos hxs]
  cases s with
  | nil => simp
  | cons a s => simp [stops_cons.mp hs]

theorem append_inj_of_stops (hxs : ∀ a ∈ xs, kind a) (hys : ∀ a ∈ ys, kind a)
    (hs : Stops kind s) (ht : Stops kind t) (h : xs ++ s = ys ++ t) : xs = ys ∧ s = t := by
  have hsame : xs = ys := by
    rw [← takeWhile_append_of_stops hxs hs, h, takeWhile_append_of_stops hys ht]
  subst hsame
  exact ⟨rfl, List.append_cancel_left h⟩

/-- Lists are cut alike at the last place of an element. -/
theorem append_cons_inj_of_last [DecidableEq α] {a : α} (hs : a ∉ s) (ht : a ∉ t)
    (h : xs ++ a :: s = ys ++ a :: t) : xs = ys ∧ s = t := by
  have hother {zs : List α} (hzs : a ∉ zs) : ∀ b ∈ zs.reverse, decide (b ≠ a) := by
    intro b hb
    simpa using fun heq : b = a => hzs (heq ▸ List.mem_reverse.mp hb)
  have hreverse : s.reverse ++ a :: xs.reverse = t.reverse ++ a :: ys.reverse := by
    simpa using congrArg List.reverse h
  obtain ⟨hrest, hlast⟩ :=
    append_inj_of_stops (hother hs) (hother ht) (by simp) (by simp) hreverse
  exact ⟨by simpa using hlast, by simpa using hrest⟩

theorem length_le_of_repeated {a : α} (hs : a ∉ s)
    (h : xs ++ (s ++ a :: xs) = ys ++ (t ++ a :: ys)) : ys.length ≤ xs.length := by
  by_contra hlt
  have hlength := congrArg List.length h
  simp only [List.length_append, List.length_cons] at hlength
  -- The element on the right would stand before the end of `s` on the left.
  have hright : (ys ++ (t ++ a :: ys))[ys.length + t.length]? = some a := by simp
  have hleft : (xs ++ (s ++ a :: xs))[ys.length + t.length]? =
      s[ys.length + t.length - xs.length]? := by
    rw [List.getElem?_append_right (by omega), List.getElem?_append_left (by omega)]
  rw [← h, hleft] at hright
  exact hs (List.mem_of_getElem? hright)

/-- A list that stands on both sides of a part is known from the whole, if an element ends the
part and does not occur earlier in it. -/
theorem append_inj_of_repeated {a : α} (hs : a ∉ s) (ht : a ∉ t)
    (h : xs ++ (s ++ a :: xs) = ys ++ (t ++ a :: ys)) : xs = ys ∧ s = t := by
  have hlength : xs.length = ys.length :=
    Nat.le_antisymm (length_le_of_repeated ht h.symm) (length_le_of_repeated hs h)
  obtain ⟨hxs, hrest⟩ := List.append_inj h hlength
  subst hxs
  exact ⟨rfl, List.append_cancel_right hrest⟩

end Stops

section Words

variable {s t : List Char}

theorem repr_append_inj {n m : Nat} (hs : Stops Char.isDigit s) (ht : Stops Char.isDigit t)
    (h : n.repr.toList ++ s = m.repr.toList ++ t) : n = m ∧ s = t := by
  rw [Nat.toList_repr, Nat.toList_repr] at h
  have hdigits (k : Nat) : ∀ c ∈ Nat.toDigits 10 k, c.isDigit := fun c hc =>
    Nat.isDigit_of_mem_toDigits (by decide) (by decide) hc
  obtain ⟨hsame, hrest⟩ := append_inj_of_stops (hdigits n) (hdigits m) hs ht h
  have hvalue := congrArg (Nat.ofDigitChars 10 · 0) hsame
  simp only [Nat.ofDigitChars_toDigits (b := 10) (by decide) (by decide)] at hvalue
  exact ⟨hvalue, hrest⟩

theorem repr_inj {n m : Nat} (h : n.repr = m.repr) : n = m :=
  (repr_append_inj stops_nil stops_nil (congrArg (·.toList ++ []) h)).1

theorem ValueId.text_append_inj {v w : ValueId} (hs : Stops Char.isDigit s)
    (ht : Stops Char.isDigit t) (h : v.text.toList ++ s = w.text.toList ++ t) :
    v = w ∧ s = t := by
  simp only [text, String.toList_append, List.append_assoc, List.append_cancel_left_eq] at h
  obtain ⟨hindex, hrest⟩ := repr_append_inj hs ht h
  exact ⟨congrArg ValueId.mk hindex, hrest⟩

theorem BlockId.text_append_inj {b c : BlockId} (hs : Stops Char.isDigit s)
    (ht : Stops Char.isDigit t) (h : b.text.toList ++ s = c.text.toList ++ t) :
    b = c ∧ s = t := by
  simp only [text, String.toList_append, List.append_assoc, List.append_cancel_left_eq] at h
  obtain ⟨hindex, hrest⟩ := repr_append_inj hs ht h
  exact ⟨congrArg BlockId.mk hindex, hrest⟩

theorem Ty.storageBits_inj {width : Nat} (hwidth : 32 < width) {a b : Ty}
    (h : a.storageBits width = b.storageBits width) : a = b := by
  cases a <;> cases b <;> simp [storageBits] at h ⊢ <;> omega

theorem Ty.lowered_append_inj {width : Nat} (hwidth : 32 < width) {a b : Ty}
    (hs : Stops Char.isDigit s) (ht : Stops Char.isDigit t)
    (h : (a.lowered width).toList ++ s = (b.lowered width).toList ++ t) : a = b ∧ s = t := by
  simp only [lowered, String.toList_append, List.append_assoc, List.append_cancel_left_eq] at h
  obtain ⟨hbits, hrest⟩ := repr_append_inj hs ht h
  exact ⟨storageBits_inj hwidth hbits, hrest⟩

theorem Predicate.mnemonic_append_inj {p q : Predicate}
    (h : p.mnemonic.toList ++ (" ".toList ++ s) = q.mnemonic.toList ++ (" ".toList ++ t)) :
    p = q ∧ s = t := by
  cases p <;> cases q <;> simp_all [mnemonic]

theorem Intrinsic.ofSymbol?_symbol (i : Intrinsic) : ofSymbol? i.symbol = some i := by
  cases i with
  | dup ty => cases ty <;> decide
  | storeTemp ty => cases ty <;> decide
  | rename ty => cases ty <;> decide
  | _ => decide

theorem Intrinsic.symbol_inj {i j : Intrinsic} (h : i.symbol = j.symbol) : i = j := by
  rw [← Option.some_inj, ← ofSymbol?_symbol, h, ofSymbol?_symbol]

theorem Intrinsic.symbol_append_inj {i j : Intrinsic}
    (h : i.symbol.toList ++ ("(".toList ++ s) = j.symbol.toList ++ ("(".toList ++ t)) :
    i = j ∧ s = t := by
  have hfree (k : Intrinsic) : ∀ c ∈ k.symbol.toList, c != '(' := by
    intro c hc
    have hopen := Helper.free_symbol k c hc
    simp only [separators, List.mem_cons, not_or] at hopen
    simpa using hopen.2.2.2.1
  obtain ⟨hsymbol, hrest⟩ := append_inj_of_stops (hfree i) (hfree j) (by simp) (by simp) h
  exact ⟨symbol_inj (String.toList_inj.mp hsymbol), List.append_cancel_left hrest⟩

theorem Felt.negative_of_toDecimal_eq {a b : Felt} (h : a.toDecimal = b.toDecimal)
    (ha : a.negative = true) : b.negative = true := by
  by_contra hb
  have hminus : '-' ∈ a.toDecimal.toList := by simp [toDecimal, ha]
  have hdigits : Free ['-'] b.magnitude.repr := Free.repr (by decide) _
  rw [h, toDecimal, if_neg hb, String.empty_append] at hminus
  exact hdigits.not_mem (List.mem_singleton_self '-') hminus

theorem Felt.toDecimal_inj {a b : Felt} (h : a.toDecimal = b.toDecimal) : a = b := by
  have hsign : a.negative = b.negative := Bool.eq_iff_iff.mpr
    ⟨negative_of_toDecimal_eq h, negative_of_toDecimal_eq h.symm⟩
  have hmagnitude : a.magnitude = b.magnitude := by
    rw [toDecimal, toDecimal, hsign] at h
    exact repr_inj (String.append_right_inj _ |>.mp h)
  cases a
  cases b
  cases hsign
  cases hmagnitude
  rfl

theorem Scalar.immediateText_inj {a b : Scalar} (hty : a.ty = b.ty)
    (h : a.immediateText = b.immediateText) : a = b := by
  cases a with
  | felt x =>
      cases b with
      | felt y => exact congrArg felt (Felt.toDecimal_inj h)
      | u32 y => cases hty
      | bool y => cases hty
  | u32 x =>
      cases b with
      | felt y => cases hty
      | u32 y => exact congrArg u32 (UInt32.toNat_inj.mp (repr_inj h))
      | bool y => cases hty
  | bool x =>
      cases b with
      | felt y => cases hty
      | u32 y => cases hty
      | bool y => cases x <;> cases y <;> simp_all [immediateText]

end Words

section Lines

variable {lines lines' : List String}

theorem free_unlines {cs : List Char} (hcs : Free cs "\n")
    (h : ∀ line ∈ lines, Free cs line) : Free cs (unlines lines) := by
  rw [unlines_eq_intercalate]
  apply Free.intercalate hcs
  simpa only [List.forall_mem_append, List.forall_mem_singleton] using ⟨h, by simp [Free]⟩

theorem unlines_inj (h : ∀ line ∈ lines, '\n' ∉ line.toList)
    (h' : ∀ line ∈ lines', '\n' ∉ line.toList) (heq : unlines lines = unlines lines') :
    lines = lines' := by
  have hpieces {ls : List String} (hls : ∀ line ∈ ls, '\n' ∉ line.toList) :
      pieces '\n' (unlines ls) = ls ++ [""] := by
    rw [unlines_eq_intercalate]
    apply pieces_intercalate _ (by simp)
    simpa only [List.forall_mem_append, List.forall_mem_singleton] using ⟨hls, by decide⟩
  have hsame := congrArg (pieces '\n') heq
  rw [hpieces h, hpieces h'] at hsame
  exact List.append_cancel_right hsame

end Lines

section Lists

/-- Characters that begin an item of a list, or that can follow in it. -/
def goesOn (c : Char) : Bool :=
  c.isDigit || [',', '%', 'i', 'f', 'u', 'b'].contains c

variable {α β : Type} {R : α → β → Prop} {p : α → String} {q : β → String} {s t : List Char}

/-- Items that are related if their texts agree up to characters that are no digits. -/
structure Legible (R : α → β → Prop) (p : α → String) (q : β → String) : Prop where
  append_inj : ∀ {a b s t}, Stops Char.isDigit s → Stops Char.isDigit t →
    (p a).toList ++ s = (q b).toList ++ t → R a b ∧ s = t
  left_begins : ∀ a s, ¬ Stops goesOn ((p a).toList ++ s)
  right_begins : ∀ b s, ¬ Stops goesOn ((q b).toList ++ s)

theorem legible_value : Legible Eq ValueId.text ValueId.text where
  append_inj := ValueId.text_append_inj
  left_begins v s := by simp [ValueId.text, goesOn]
  right_begins v s := by simp [ValueId.text, goesOn]

theorem legible_name : Legible Eq Ty.name Ty.name where
  append_inj {a b _ _} _ _ h := by cases a <;> cases b <;> simp_all [Ty.name]
  left_begins ty s := by cases ty <;> simp [Ty.name, goesOn]
  right_begins ty s := by cases ty <;> simp [Ty.name, goesOn]

theorem Stops.not_digit (hs : Stops goesOn s) : Stops Char.isDigit s := by
  intro c hc
  have hgoes := hs c hc
  simp only [goesOn, Bool.or_eq_false_iff] at hgoes
  exact hgoes.1

/-- What follows the first item of a list. -/
def listTail : List String → String
  | [] => ""
  | next :: rest => ", " ++ commaList (next :: rest)

theorem commaList_cons (part : String) (rest : List String) :
    commaList (part :: rest) = part ++ listTail rest := by
  cases rest with
  | nil => simp [commaList, listTail]
  | cons next rest =>
      simp [commaList, listTail, String.intercalate_cons_cons, String.append_assoc]

theorem stops_listTail (rest : List String) (hs : Stops goesOn s) :
    Stops Char.isDigit ((listTail rest).toList ++ s) := by
  cases rest with
  | nil => exact hs.not_digit
  | cons next rest => simp [listTail]

theorem not_stops_listTail (next : String) (rest : List String) (s : List Char) :
    ¬ Stops goesOn ((listTail (next :: rest)).toList ++ s) := by
  simp [listTail, goesOn]

theorem Legible.commaList_append_inj (hpq : Legible R p q) {xs : List α} {ys : List β}
    (hs : Stops goesOn s) (ht : Stops goesOn t)
    (h : (commaList (xs.map p)).toList ++ s = (commaList (ys.map q)).toList ++ t) :
    List.Forall₂ R xs ys ∧ s = t := by
  induction xs generalizing ys with
  | nil =>
      cases ys with
      | nil => exact ⟨.nil, h⟩
      | cons y ys =>
          rw [List.map_cons, commaList_cons, String.toList_append, List.append_assoc] at h
          change s = _ at h
          exact absurd (h ▸ hs) (hpq.right_begins y _)
  | cons x xs ih =>
      rw [List.map_cons, commaList_cons, String.toList_append, List.append_assoc] at h
      cases ys with
      | nil =>
          change _ = t at h
          exact absurd (h ▸ ht) (hpq.left_begins x _)
      | cons y ys =>
          rw [List.map_cons, commaList_cons, String.toList_append, List.append_assoc] at h
          obtain ⟨hxy, htail⟩ := hpq.append_inj (stops_listTail _ hs) (stops_listTail _ ht) h
          cases xs with
          | nil =>
              cases ys with
              | nil => exact ⟨.cons hxy .nil, htail⟩
              | cons y' ys =>
                  change s = _ at htail
                  exact absurd (htail ▸ hs) (not_stops_listTail _ _ _)
          | cons x' xs =>
              cases ys with
              | nil =>
                  change _ = t at htail
                  exact absurd (htail ▸ ht) (not_stops_listTail _ _ _)
              | cons y' ys =>
                  simp only [listTail, List.map_cons, String.toList_append, List.append_assoc,
                    List.append_cancel_left_eq] at htail
                  obtain ⟨hrest, hend⟩ := @ih (y' :: ys) htail
                  exact ⟨.cons hxy hrest, hend⟩

end Lists

end FieldSSA
