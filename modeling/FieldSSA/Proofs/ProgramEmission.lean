import Mathlib
import FieldSSA.Libfunc.Extra
import FieldSSA.Lowering.Program
import FieldSSA.Proofs.LowerCalls

namespace FieldSSA

/-- The functions and the errors of sources that are emitted one by one, each list in the order of
the sources. -/
inductive Emission.Splits (registry : Registry) (config : Config) :
    List Source → List Function → List EmitError → Prop
  | nil : Splits registry config [] [] []
  | emitted {s : Source} {f : Function} {sources : List Source} {functions : List Function}
      {errors : List EmitError} :
      s.emit registry config = .ok f → Splits registry config sources functions errors →
        Splits registry config (s :: sources) (f :: functions) errors
  | failed {s : Source} {e : EmitError} {sources : List Source} {functions : List Function}
      {errors : List EmitError} :
      s.emit registry config = .error e → Splits registry config sources functions errors →
        Splits registry config (s :: sources) functions (e :: errors)

namespace Program

variable {sources : List Source} {registry : Registry} {config : Config}
  {functions : List Function} {errors : List EmitError}

theorem splits_emit (hconfig : config.validate = .ok ()) (sources : List Source) :
    ∃ e, Program.emit sources registry config = .ok e ∧
      Emission.Splits registry config sources e.program.functions e.errors := by
  simp only [Program.emit, hconfig, Except.mapError]
  refine ⟨_, rfl, ?_⟩
  induction sources with
  | nil => exact .nil
  | cons s rest ih =>
      cases hs : s.emit registry config with
      | ok f =>
          rw [List.map_cons, hs]
          exact .emitted hs ih
      | error e =>
          rw [List.map_cons, hs]
          exact .failed hs ih

/-- The errors of sources are as many as the names that they carry, and these are the names of the
sources that fail. -/
theorem failed_of_splits (hconfig : config.validate = .ok ())
    (h : Emission.Splits registry config sources functions errors) :
    errors.map EmitError.function? =
      (sources.filter fun s => !(s.emit registry config).isOk).map fun s => some s.name := by
  induction h with
  | nil => rfl
  | emitted hs _ ih => simpa [hs, Except.isOk, Except.toBool] using ih
  | failed hs _ ih =>
      have hname := Source.function?_of_emit_eq_error hconfig hs
      simpa [hs, Except.isOk, Except.toBool, hname] using ih

/-- Under a valid configuration a program is emitted whatever becomes of its sources. The
functions and errors are those of the sources in order, each error names its source, so that the
failed names are one for each error. Each function has the name of its source, where the libfuncs
work through calls: one that put another builder in place would bring another name. -/
theorem emit_splits (sources : List Source) (registry : Registry) (config : Config)
    (hconfig : config.validate = .ok ()) :
    ∃ e, Program.emit sources registry config = .ok e ∧
      Emission.Splits registry config sources e.program.functions e.errors ∧
      (∀ s ∈ sources, ∀ err, s.emit registry config = .error err →
        err.function? = some s.name) ∧
      e.failed.length = e.errors.length ∧
      e.failed = (sources.filter fun s => !(s.emit registry config).isOk).map Source.name ∧
      (registry.ByCalls → ∀ s ∈ sources, ∀ f, s.emit registry config = .ok f →
        f.name = s.name) := by
  obtain ⟨e, hemit, hsplits⟩ := splits_emit hconfig sources
  have hfunctions := failed_of_splits hconfig hsplits
  have hfailed : e.failed =
      (sources.filter fun s => !(s.emit registry config).isOk).map Source.name := by
    have hnames := congrArg (List.filterMap id) hfunctions
    simpa [Emission.failed, List.filterMap_map, Function.comp_def] using hnames
  refine ⟨e, hemit, hsplits, ?_, ?_, hfailed, ?_⟩
  · intro s _ err herr
    exact Source.function?_of_emit_eq_error hconfig herr
  · have hlength := congrArg List.length hfunctions
    rw [hfailed]
    simpa using hlength.symm
  · intro hcalls s _ f hf
    exact Source.name_of_emit hconfig hcalls hf

/-- A function whose only call leaves the block that it stands in. -/
def hopping : Source :=
  ⟨"hopping", [(⟨0⟩, .felt252)], [.felt252],
    [.call "hop" [⟨0⟩] [⟨1⟩], .storeTemp .felt252 ⟨1⟩ ⟨2⟩, .ret [⟨2⟩]]⟩

/-- A function that calls what no registry here has. -/
def lost : Source :=
  ⟨"lost", [(⟨0⟩, .felt252)], [], [.call "skip" [⟨0⟩] [], .ret []]⟩

theorem byCalls_hop : Libfunc.hop.ByCalls := by
  intro args
  refine Build.leads_bind (Build.leads_createBlock _) fun dest => ?_
  refine Build.leads_bind (Build.leads_br _) fun _ => ?_
  exact Build.leads_bind (Build.leads_switchTo dest) fun _ => Build.leads_blockParams dest

theorem lost_hopping_split :
    ({} : Config).validate = .ok () ∧ (Registry.default.insert .hop).ByCalls ∧
      ∃ e f, Program.emit [lost, hopping] (Registry.default.insert .hop) {} = .ok e ∧
        e.program.functions = [f] ∧ f.name = "hopping" ∧
        e.errors = [.unsupported "lost" 0 "skip"] ∧ e.failed = ["lost"] := by
  have hcalls : (Registry.default.insert .hop).ByCalls :=
    Registry.byCalls_default.insert byCalls_hop
  have hlost : lost.emit (Registry.default.insert .hop) {} =
      .error (.unsupported "lost" 0 "skip") := by cbv
  have hhopping : (hopping.emit (Registry.default.insert .hop) {}).isOk = true := by cbv
  obtain ⟨⟨⟨functions⟩, errors⟩, hemit, hsplits, -, -, -, hnames⟩ :=
    emit_splits [lost, hopping] (Registry.default.insert .hop) {} rfl
  refine ⟨rfl, hcalls, ⟨⟨functions⟩, errors⟩, ?_⟩
  cases hsplits with
  | emitted h _ => simp [hlost] at h
  | failed herr hrest =>
      cases hrest with
      | failed h _ => simp [h, Except.isOk, Except.toBool] at hhopping
      | @emitted _ f _ _ _ hf hrest =>
          cases hrest
          have hname : f.name = "hopping" :=
            hnames hcalls hopping (List.mem_cons_of_mem _ List.mem_cons_self) f hf
          obtain rfl := Except.error.inj (hlost.symm.trans herr)
          exact ⟨f, hemit, rfl, hname, rfl, rfl⟩

/-- Puts a builder for another function in the place of the one that it is given. -/
def swapBuilder : Libfunc where
  name := "swap_builder"
  params := []
  results := []
  lower _ := do
    set (Builder.ofSignature ⟨"other", [], []⟩)
    return []

def swapped : Source :=
  ⟨"swapped", [], [], [.call "swap_builder" [] [], .ret []]⟩

/-- A libfunc that swaps the builder makes a source come out under another name. -/
theorem swapped_emitted_as_other :
    ({} : Config).validate = .ok () ∧
      ∃ f, swapped.emit (Registry.default.insert swapBuilder) {} = .ok f ∧
        Program.emit [swapped] (Registry.default.insert swapBuilder) {} = .ok ⟨⟨[f]⟩, []⟩ ∧
        f.name = "other" ∧ swapped.name = "swapped" := by
  have hname : (swapped.emit (Registry.default.insert swapBuilder) {}).map Function.name =
      .ok "other" := by cbv
  obtain ⟨⟨⟨functions⟩, errors⟩, hemit, hsplits⟩ :
      ∃ e, Program.emit [swapped] (Registry.default.insert swapBuilder) {} = .ok e ∧
        Emission.Splits (Registry.default.insert swapBuilder) {} [swapped]
          e.program.functions e.errors := splits_emit rfl [swapped]
  refine ⟨rfl, ?_⟩
  cases hsplits with
  | failed herr _ =>
      rw [herr] at hname
      cases hname
  | @emitted _ f _ _ _ hf hrest =>
      cases hrest
      rw [hf] at hname
      exact ⟨f, hf, hemit, Except.ok.inj hname, rfl⟩

end Program

end FieldSSA
