import Mathlib.Data.List.Forall2

namespace FieldSSA

variable {ε α β : Type}

@[simp]
theorem ok_bind (a : α) (g : α → Except ε β) : (Except.ok a >>= g) = g a := rfl

@[simp]
theorem error_bind (e : ε) (g : α → Except ε β) : (Except.error e >>= g) = .error e := rfl

theorem bind_eq_ok_iff {x : Except ε α} {g : α → Except ε β} {b : β} :
    (x >>= g) = .ok b ↔ ∃ a, x = .ok a ∧ g a = .ok b := by
  cases x <;> simp [bind, Except.bind]

theorem pure_eq_ok_iff {a b : α} : (pure a : Except ε α) = .ok b ↔ a = b := by
  simp [pure, Except.pure]

theorem mapM_eq_ok_iff {g : α → Except ε β} {xs : List α} {ys : List β} :
    xs.mapM g = .ok ys ↔ List.Forall₂ (fun x y => g x = .ok y) xs ys := by
  induction xs generalizing ys with
  | nil =>
      rw [List.mapM_nil, pure_eq_ok_iff, List.forall₂_nil_left_iff]
      exact eq_comm
  | cons x rest ih =>
      rw [List.mapM_cons]
      constructor
      · intro h
        obtain ⟨y, hy, h⟩ := bind_eq_ok_iff.mp h
        obtain ⟨ys', hys, h⟩ := bind_eq_ok_iff.mp h
        obtain rfl := pure_eq_ok_iff.mp h
        exact .cons hy (ih.mp hys)
      · rintro (_ | ⟨hy, hys⟩)
        exact bind_eq_ok_iff.mpr ⟨_, hy, bind_eq_ok_iff.mpr ⟨_, ih.mpr hys, rfl⟩⟩

theorem mapM_eq_ok_map {g : α → Except ε β} {p : α → β} {xs : List α}
    (h : ∀ x ∈ xs, g x = .ok (p x)) : xs.mapM g = .ok (xs.map p) := by
  rw [mapM_eq_ok_iff, List.forall₂_map_right_iff, List.forall₂_same]
  exact h

theorem forall₂_zip {γ : Type} {R : β → γ → Prop} {xs : List α} {ys : List β} {zs : List γ}
    (hlen : xs.length = zs.length) (h : List.Forall₂ R ys zs) :
    List.Forall₂ (fun p y => R y p.2) (xs.zip zs) ys := by
  induction h generalizing xs with
  | nil => simp
  | cons hy _ ih =>
      cases xs with
      | nil => simp at hlen
      | cons x xs => exact .cons hy (ih (by simpa using hlen))

theorem exists_mem_of_forall₂ {R : α → β → Prop} {xs : List α} {ys : List β} {x : α}
    (h : List.Forall₂ R xs ys) (hx : x ∈ xs) : ∃ y ∈ ys, R x y := by
  induction h with
  | nil => simp at hx
  | cons hhead _ ih =>
      rcases List.mem_cons.mp hx with rfl | hmem
      · exact ⟨_, List.mem_cons_self, hhead⟩
      · obtain ⟨y, hy, hrel⟩ := ih hmem
        exact ⟨y, List.mem_cons_of_mem _ hy, hrel⟩

theorem mem_of_lookup_eq_some [DecidableEq α] {entries : List (α × β)} {a : α} {b : β}
    (h : entries.lookup a = some b) : (a, b) ∈ entries := by
  obtain ⟨pre, post, heq, -⟩ := List.lookup_eq_some_iff.mp h
  simp [heq]

/-- All errors that a computation may end in satisfy a predicate. -/
def FailsIn (P : ε → Prop) (x : Except ε α) : Prop :=
  ∀ e, x = .error e → P e

namespace FailsIn

variable {P Q : ε → Prop}

theorem ok (a : α) : FailsIn P (.ok a) := by
  intro e h
  cases h

theorem error {e : ε} (h : P e) : FailsIn P (.error e : Except ε α) := by
  rintro _ ⟨⟩
  exact h

theorem mono {x : Except ε α} (h : FailsIn P x) (hPQ : ∀ e, P e → Q e) : FailsIn Q x :=
  fun e he => hPQ e (h e he)

theorem bind {x : Except ε α} {g : α → Except ε β} (hx : FailsIn P x)
    (hg : ∀ a, x = .ok a → FailsIn P (g a)) : FailsIn P (x >>= g) := by
  cases x with
  | error e => exact error (hx e rfl)
  | ok a => exact hg a rfl

theorem mapM {g : α → Except ε β} {xs : List α} (h : ∀ x ∈ xs, FailsIn P (g x)) :
    FailsIn P (xs.mapM g) := by
  induction xs with
  | nil => exact ok []
  | cons x rest ih =>
      rw [List.forall_mem_cons] at h
      rw [List.mapM_cons]
      exact h.1.bind fun _ _ => (ih h.2).bind fun _ _ => ok _

end FailsIn

section State

variable {σ : Type} {m : ExceptT ε (StateM σ) α} {s s' : σ}

theorem bind_apply_of_ok {a : α} (h : m s = (.ok a, s')) (g : α → ExceptT ε (StateM σ) β) :
    (m >>= g) s = g a s' := by
  simp only [Bind.bind, ExceptT.bind, ExceptT.mk, StateT.bind, h]
  rfl

theorem bind_apply_of_error {e : ε} (h : m s = (.error e, s')) (g : α → ExceptT ε (StateM σ) β) :
    (m >>= g) s = (.error e, s') := by
  simp only [Bind.bind, ExceptT.bind, ExceptT.mk, StateT.bind, h]
  rfl

end State

end FieldSSA
