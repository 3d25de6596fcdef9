import FieldSSA.Proofs.BuilderSteps
import FieldSSA.Proofs.Stream
import FieldSSA.Proofs.WellFormed

/-!
The code that operations stand for. Operations that go on in their block are calls of a few
recipes: a constant, a helper, a comparison, a test for zero. The values that a recipe
creates are numbered in order from the next free number.
-/

namespace FieldSSA

/-- As many values, numbered from `next`. -/
def numbered (next count : Nat) : List ValueId :=
  (List.range count).map fun i => ⟨next + i⟩

theorem Builder.fresh_eq_numbered (b : Builder) (types : List Ty) :
    b.fresh types = numbered b.valueTypes.length types.length := rfl

@[simp]
theorem length_numbered (next count : Nat) : (numbered next count).length = count := by
  simp [numbered]

theorem mem_numbered_iff {next count : Nat} {v : ValueId} :
    v ∈ numbered next count ↔ next ≤ v.index ∧ v.index < next + count := by
  simp only [numbered, List.mem_map, List.mem_range]
  constructor
  · rintro ⟨i, hi, rfl⟩
    exact ⟨Nat.le_add_right next i, Nat.add_lt_add_left hi next⟩
  · rintro ⟨hle, hlt⟩
    exact ⟨v.index - next, by omega, congrArg ValueId.mk (by omega)⟩

theorem nodup_numbered (next count : Nat) : (numbered next count).Nodup := by
  refine List.nodup_range.map fun i j h => ?_
  simpa using h

/-- The last values of a table have the types that were added last. -/
theorem Builder.hasTypes_numbered {b : Builder} {before types : List Ty}
    (h : b.valueTypes = before ++ types) :
    b.draft.HasTypes (numbered before.length types.length) types := by
  refine List.forall₂_iff_get.mpr ⟨by simp, fun i hi hi' => ?_⟩
  have hget : (before ++ types)[before.length + i]? = some types[i] := by
    rw [List.getElem?_append_right (Nat.le_add_right _ _), Nat.add_sub_cancel_left]
    exact List.getElem?_eq_getElem hi'
  simpa [numbered, Function.HasType, Function.valueType?, draft, h] using hget

theorem Scalar.ty_zero (ty : Ty) : (Scalar.zero ty).ty = ty := by
  cases ty <;> rfl

/-- Straight-line code, with the types of the values that it creates and the values that it
gives to the operation's results. -/
structure Code where
  instructions : List Instruction
  types : List Ty
  outputs : List ValueId

/-- How a call is built. -/
inductive Recipe where
  | constant (imm : Scalar)
  | helper (callee : Intrinsic)
  | comparison (ty : Ty) (pred : Predicate)
  | zeroTest (ty : Ty)

namespace Recipe

def libfunc (name : String) : Recipe → Libfunc
  | constant imm => ⟨name, [], [imm.ty], fun _ => return [← Build.const imm]⟩
  | helper callee => .ofIntrinsic name callee
  | comparison ty pred => .comparison name ty pred
  | zeroTest ty => .zeroTest name ty

def params : Recipe → List Ty
  | constant _ => []
  | helper callee => callee.params
  | comparison ty _ => [ty, ty]
  | zeroTest ty => [ty]

def results : Recipe → List Ty
  | constant imm => [imm.ty]
  | helper callee => callee.results
  | comparison _ _ | zeroTest _ => [.bool]

/-- The number of instructions of a recipe. -/
def size : Recipe → Nat
  | zeroTest _ => 2
  | _ => 1

/-- Arguments and results of a recipe, as many as it has parameters and result types. -/
inductive Shaped {α β : Type} : Recipe → List α → List β → Prop
  | constant (imm : Scalar) (x : β) : Shaped (.constant imm) [] [x]
  | helper (callee : Intrinsic) (args : List α) (results : List β) :
      Shaped (.helper callee) args results
  | comparison (ty : Ty) (pred : Predicate) (lhs rhs : α) (x : β) :
      Shaped (.comparison ty pred) [lhs, rhs] [x]
  | zeroTest (ty : Ty) (v : α) (x : β) : Shaped (.zeroTest ty) [v] [x]

theorem shaped {α β : Type} {r : Recipe} {args : List α} {results : List β}
    (hargs : args.length = r.params.length) (hresults : results.length = r.results.length) :
    r.Shaped args results := by
  match r, args, results with
  | .constant imm, [], [x] => exact .constant imm x
  | .helper callee, args, results => exact .helper callee args results
  | .comparison ty pred, [lhs, rhs], [x] => exact .comparison ty pred lhs rhs x
  | .zeroTest ty, [v], [x] => exact .zeroTest ty v x

/-- The recipes of the built-in libfuncs. -/
def builtin : List (String × Recipe) :=
  [("felt252_mul", helper .felt252Mul),
    ("felt252_add", helper .felt252Add),
    ("felt252_sub", helper .felt252Sub),
    ("felt252_is_zero", zeroTest .felt252),
    ("u32_overflowing_add", helper .u32OverflowingAdd),
    ("u32_overflowing_sub", helper .u32OverflowingSub),
    ("u32_eq", comparison .u32 .eq),
    ("u32_lt", comparison .u32 .ult),
    ("u32_le", comparison .u32 .ule),
    ("u32_is_zero", zeroTest .u32),
    ("u32_safe_divmod", helper .u32Divmod),
    ("u32_to_felt252", helper .u32ToFelt252),
    ("u32_try_from_felt252", helper .u32TryFromFelt252)]

theorem libfuncs_default_eq :
    Registry.default.libfuncs = builtin.map fun p => p.2.libfunc p.1 := rfl

theorem libfunc_name (name : String) (r : Recipe) : (r.libfunc name).name = name := by
  cases r <;> rfl

theorem libfunc_params (name : String) (r : Recipe) : (r.libfunc name).params = r.params := by
  cases r <;> rfl

theorem libfunc_results (name : String) (r : Recipe) :
    (r.libfunc name).results = r.results := by
  cases r <;> rfl

theorem get?_default (name : String) :
    Registry.default.get? name = (builtin.lookup name).map (libfunc name) := by
  rw [Registry.get?, libfuncs_default_eq]
  generalize builtin = recipes
  induction recipes with
  | nil => rfl
  | cons p rest ih =>
      obtain ⟨key, r⟩ := p
      rw [List.map_cons, List.find?_cons, List.lookup_cons, libfunc_name, ih]
      by_cases h : key = name
      · subst h
        simp
      · have hkey : (key == name) = false := beq_eq_false_iff_ne.mpr h
        have hname : (name == key) = false := beq_eq_false_iff_ne.mpr (Ne.symm h)
        rw [hkey, hname]

def code (next : Nat) (args : List ValueId) : Recipe → Code
  | constant imm => ⟨[.const ⟨next⟩ imm], [imm.ty], [⟨next⟩]⟩
  | helper callee =>
      ⟨[.call callee args (numbered next callee.results.length)], callee.results,
        numbered next callee.results.length⟩
  | comparison _ pred =>
      match args with
      | lhs :: rhs :: _ => ⟨[.cmp ⟨next⟩ pred lhs rhs], [.bool], [⟨next⟩]⟩
      | _ => ⟨[], [], []⟩
  | zeroTest ty =>
      match args with
      | v :: _ =>
          ⟨[.const ⟨next⟩ (.zero ty), .cmp ⟨next + 1⟩ .eq v ⟨next⟩], [ty, .bool], [⟨next + 1⟩]⟩
      | [] => ⟨[], [], []⟩

/-- A libfunc adds the code of its recipe to the open block. -/
theorem lower_libfunc {b : Builder} {id : BlockId} {blk : OpenBlock} (h : b.OpenAt id blk)
    (name : String) (r : Recipe) {args : List ValueId} (hlen : args.length = r.params.length) :
    (r.libfunc name).lower args b =
      (.ok (r.code b.valueTypes.length args).outputs,
        b.extend id (r.code b.valueTypes.length args).instructions
          (r.code b.valueTypes.length args).types) := by
  cases r.shaped hlen rfl with
  | constant imm => exact bind_apply_of_ok (Build.const_of_openAt h imm) _
  | helper callee args => exact Build.call_of_openAt h callee args
  | comparison ty pred lhs rhs => exact bind_apply_of_ok (Build.cmp_of_openAt h pred lhs rhs) _
  | zeroTest ty v =>
      refine (bind_apply_of_ok (Build.const_of_openAt h (.zero ty)) _).trans ?_
      refine (bind_apply_of_ok (Build.cmp_of_openAt h.extend _ _ _) _).trans ?_
      rw [Builder.extend_extend, Scalar.ty_zero]
      simp [code, Builder.extend]
      rfl

section Numbering

variable {r : Recipe} {next : Nat} {args : List ValueId}

theorem code_results (hlen : args.length = r.params.length) :
    (r.code next args).instructions.flatMap Instruction.results =
      numbered next (r.code next args).types.length := by
  cases r.shaped hlen rfl with
  | helper callee => simp [code, Instruction.results]
  | constant | comparison | zeroTest => rfl

theorem length_code (hlen : args.length = r.params.length) :
    (r.code next args).instructions.length = r.size := by
  cases r.shaped hlen rfl with
  | constant | helper | comparison | zeroTest => rfl

theorem code_outputs_sublist (hlen : args.length = r.params.length) :
    (r.code next args).outputs.Sublist (numbered next (r.code next args).types.length) := by
  cases r.shaped hlen rfl with
  | constant | helper | comparison => exact .refl _
  | zeroTest => exact List.sublist_cons_self _ _

theorem length_code_outputs (hlen : args.length = r.params.length) :
    (r.code next args).outputs.length = r.results.length := by
  cases r.shaped hlen rfl with
  | helper callee => exact length_numbered _ _
  | constant | comparison | zeroTest => rfl

/-- In a table that lists the created values, the code is typed and its outputs have the
types of the results. -/
theorem code_typed {f : Function} {scope : List ValueId} (hargs : f.HasTypes args r.params)
    (hsub : args ⊆ scope) (hnew : f.HasTypes (numbered next (r.code next args).types.length)
      (r.code next args).types) :
    f.InstructionsTyped scope (r.code next args).instructions ∧
      f.HasTypes (r.code next args).outputs r.results := by
  cases r.shaped hargs.length_eq rfl with
  | constant imm =>
      have hresult : f.HasType ⟨next⟩ imm.ty := (List.forall₂_cons.mp hnew).1
      exact ⟨⟨by simp [Instruction.operands], hresult, trivial⟩, hnew⟩
  | helper callee => exact ⟨⟨hsub, ⟨hargs, hnew⟩, trivial⟩, hnew⟩
  | comparison ty pred lhs rhs =>
      obtain ⟨hl, hr⟩ : f.HasType lhs ty ∧ f.HasType rhs ty := by
        simpa [Function.HasTypes, params] using hargs
      have hsame : ∀ l r, f.HasType lhs l → f.HasType rhs r → l = r := fun l r hl' hr' =>
        (Option.some.inj (hl'.symm.trans hl)).trans (Option.some.inj (hr.symm.trans hr'))
      exact ⟨⟨hsub, ⟨hsame, (List.forall₂_cons.mp hnew).1⟩, trivial⟩, hnew⟩
  | zeroTest ty v =>
      have hv : f.HasType v ty := (List.forall₂_cons.mp hargs).1
      obtain ⟨hzero, hrest⟩ := List.forall₂_cons.mp hnew
      have hzero : f.HasType ⟨next⟩ ty := hzero
      have hsame : ∀ l r, f.HasType v l → f.HasType ⟨next⟩ r → l = r := fun l r hl' hr' =>
        (Option.some.inj (hl'.symm.trans hv)).trans (Option.some.inj (hzero.symm.trans hr'))
      have hconst : f.InstructionTyped (.const ⟨next⟩ (.zero ty)) := by
        rw [Function.InstructionTyped, Scalar.ty_zero]
        exact hzero
      refine ⟨⟨by simp [Instruction.operands], hconst, ?_, ⟨hsame, (List.forall₂_cons.mp hrest).1⟩,
        trivial⟩, hrest⟩
      simpa [Instruction.operands, Instruction.results] using .inl (hsub (by simp))

end Numbering

end Recipe

/-- The recipe of an operation that goes on in its block, with the variables that it reads
and defines. -/
def Op.asCall? : Op → Option (Recipe × List Var × List Var)
  | .const dest value => some (.constant value, [], [dest])
  | .dup ty src first second => some (.helper (.dup ty), [src], [first, second])
  | .storeTemp ty src dest => some (.helper (.storeTemp ty), [src], [dest])
  | .rename ty src dest => some (.helper (.rename ty), [src], [dest])
  | .call libfunc args results => (Recipe.builtin.lookup libfunc).map (·, args, results)
  | _ => none

/-- Tests for zero take two instructions, all other operations of a block one. -/
def Op.codeSize (o : Op) : Nat :=
  if o.name = "felt252_is_zero" ∨ o.name = "u32_is_zero" then 2 else 1

theorem Recipe.size_of_mem_builtin : ∀ p ∈ Recipe.builtin,
    p.2.size = if p.1 = "felt252_is_zero" ∨ p.1 = "u32_is_zero" then 2 else 1 := by
  decide

theorem Op.codeSize_le (o : Op) : o.codeSize ≤ 2 := by
  unfold codeSize
  split <;> decide

theorem Op.codeSize_of_isTerminator {o : Op} (h : o.isTerminator = true) : o.codeSize = 1 := by
  cases o with
  | branch | condBranch | ret => rfl
  | _ => simp [isTerminator] at h

section Call

variable {s : Source} {o : Op} {r : Recipe} {args results : List Var}

theorem Op.codeSize_of_asCall? (h : o.asCall? = some (r, args, results)) :
    o.codeSize = r.size := by
  cases o with
  | call libfunc args results =>
      obtain ⟨r', hr, heq⟩ := Option.map_eq_some_iff.mp h
      obtain ⟨rfl, -⟩ := Prod.mk.inj heq
      exact (Recipe.size_of_mem_builtin _ (mem_of_lookup_eq_some hr)).symm
  | const | dup | storeTemp | rename =>
      obtain ⟨rfl, -⟩ := Prod.mk.inj (Option.some.inj h)
      rfl
  | _ => cases h

theorem Op.isTerminator_of_asCall? (h : o.asCall? = some (r, args, results)) :
    o.isTerminator = false := by
  cases o <;> simp_all [asCall?, isTerminator]

theorem Op.defs_of_asCall? (h : o.asCall? = some (r, args, results)) :
    o.defs = results.zip r.results := by
  cases o with
  | call libfunc args results =>
      obtain ⟨r', hr, heq⟩ := Option.map_eq_some_iff.mp h
      obtain ⟨rfl, rfl, rfl⟩ : r' = r ∧ _ ∧ _ := by simpa using heq
      simp [defs, Recipe.get?_default, hr, Recipe.libfunc_results]
  | _ => simp_all [asCall?, defs] <;> grind [Recipe.results, Intrinsic.results]

theorem Source.reads_of_asCall? (h : o.asCall? = some (r, args, results)) :
    s.reads o = args.zip r.params := by
  cases o with
  | call libfunc args results =>
      obtain ⟨r', hr, heq⟩ := Option.map_eq_some_iff.mp h
      obtain ⟨rfl, rfl, rfl⟩ : r' = r ∧ _ ∧ _ := by simpa using heq
      simp [reads, Recipe.get?_default, hr, Recipe.libfunc_params]
  | _ => simp_all [Op.asCall?, reads] <;> grind [Recipe.params, Intrinsic.params]

theorem Source.fits_iff_of_asCall? (h : o.asCall? = some (r, args, results)) :
    s.Fits o ↔ r.params.length = args.length ∧ r.results.length = results.length := by
  cases o with
  | call libfunc args results =>
      obtain ⟨r', hr, heq⟩ := Option.map_eq_some_iff.mp h
      obtain ⟨rfl, rfl, rfl⟩ : r' = r ∧ _ ∧ _ := by simpa using heq
      simp [Fits, Recipe.get?_default, hr, Recipe.libfunc_params, Recipe.libfunc_results]
  | _ =>
      simp_all [Op.asCall?, Fits] <;>
        grind [Recipe.params, Intrinsic.params, Recipe.results, Intrinsic.results]

end Call

end FieldSSA
