import FieldSSA.Proofs.Legibility

namespace FieldSSA

theorem Ty.name_of_ofName? {s : String} {ty : Ty} (h : ofName? s = some ty) : ty.name = s := by
  simpa using List.find?_some h

/-- A list is cut before the first element that a loop over it stops at. -/
theorem eq_append_of_dropWhile {α : Type} {kind : α → Bool} {xs rest : List α} {a : α}
    (h : xs.dropWhile kind = a :: rest) :
    xs = xs.takeWhile kind ++ a :: rest ∧ kind a = false := by
  constructor
  · rw [← h, List.takeWhile_append_dropWhile]
  · have hstop := List.head?_dropWhile_not kind xs
    rw [h] at hstop
    simpa using hstop

namespace Intrinsic

/-- A generic helper that a name and a type denote has them in its symbol. -/
theorem symbol_of_ofGeneric? {name : List Char} {ty : Ty} {i : Intrinsic}
    (h : ofGeneric? name ty = some i) :
    i.symbol.toList = name ++ '<' :: (ty.name.toList ++ ['>']) := by
  unfold ofGeneric? at h
  split_ifs at h with hdup hstore hrename
  · obtain rfl := Option.some.inj h
    simp [symbol, hdup]
  · obtain rfl := Option.some.inj h
    simp [symbol, hstore]
  · obtain rfl := Option.some.inj h
    simp [symbol, hrename]

theorem symbol_of_ofSymbol? {s : String} {i : Intrinsic} (h : ofSymbol? s = some i) :
    i.symbol = s := by
  unfold ofSymbol? at h
  split at h
  · rename_i body hends
    have hs : s.toList = body.reverse ++ ['>'] := by
      simpa using congrArg List.reverse hends
    dsimp only at h
    split at h
    · rename_i c tyName hcut
      obtain ⟨hparts, hc⟩ := eq_append_of_dropWhile hcut
      obtain rfl : c = '<' := by simpa using hc
      obtain ⟨ty, hty, hgeneric⟩ := Option.bind_eq_some_iff.mp h
      have hname : ty.name.toList = tyName := by
        rw [Ty.name_of_ofName? hty, String.toList_ofList]
      apply String.toList_inj.mp
      rw [symbol_of_ofGeneric? hgeneric, hs, hname]
      conv_rhs => rw [hparts]
      rw [List.append_assoc, List.cons_append]
    · cases h
  · simpa using List.find?_some h

theorem ofSymbol?_eq_some_iff {s : String} {i : Intrinsic} :
    ofSymbol? s = some i ↔ s = i.symbol := by
  constructor
  · intro h
    exact (symbol_of_ofSymbol? h).symm
  · rintro rfl
    exact ofSymbol?_symbol i

/-- A text denotes a helper exactly if it is its symbol: no two helpers share one, and every other
text, whatever brackets and names stand in it, denotes none. -/
theorem symbols_read_exactly :
    (∀ (s : String) (i : Intrinsic), ofSymbol? s = some i ↔ s = i.symbol) ∧
    (∀ i j : Intrinsic, i.symbol = j.symbol ↔ i = j) ∧
    ∀ s : String, ofSymbol? s = none ↔ ∀ i : Intrinsic, s ≠ i.symbol := by
  refine ⟨fun s i => ofSymbol?_eq_some_iff, fun i j => ⟨symbol_inj, congrArg symbol⟩, ?_⟩
  intro s
  rw [Option.eq_none_iff_forall_ne_some]
  exact forall_congr' fun i => not_congr ofSymbol?_eq_some_iff

example : ofSymbol? "dup<u32>>" = none ∧ ofSymbol? "dup<rename<u32>" = none := by decide

end Intrinsic

end FieldSSA
