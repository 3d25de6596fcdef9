import FieldSSA.Source.Draft

namespace FieldSSA

structure ZeroTest where
  nonzero : Label
  join : Label

namespace ZeroTest

def begin (value : Var) : Drafting ZeroTest := do
  let zero ← Draft.label
  let nonzero ← Draft.label
  let join ← Draft.label
  let (tested, carried) ← Draft.dup .felt252 value
  let isZero ← Draft.callOne "felt252_is_zero" [tested]
  Draft.condBranch isZero zero [] nonzero [carried]
  let _ ← Draft.place zero []
  return ⟨nonzero, join⟩

/-- End the zero arm with its result and open the other, which gets the value back. -/
def otherwise (t : ZeroTest) (result : Var) : Drafting Var := do
  Draft.branch t.join [result]
  Draft.placeOne t.nonzero .felt252

/-- End the nonzero arm with its result; the result of the test gets a new name. -/
def finish (t : ZeroTest) (result : Var) : Drafting Var := do
  Draft.branch t.join [result]
  let merged ← Draft.placeOne t.join .felt252
  Draft.rename .felt252 merged

end ZeroTest

namespace Draft

/-- Branch on `value = 0`. The arms give stored field elements. -/
def ifZero (value : Var) (onZero : Drafting Var) (onNonzero : Var → Drafting Var) :
    Drafting Var := do
  let t ← ZeroTest.begin value
  let carried ← t.otherwise (← onZero)
  t.finish (← onNonzero carried)

end Draft

/-- The function that keeps zero and multiplies any other element by a constant. The argument
passes through a block that only renames it. -/
def Source.conditionalTransform (name : String) (multiplier : Felt) : Source :=
  let steps : Drafting Unit := do
    let v ← Draft.param .felt252
    let relabel ← Draft.label
    let test ← Draft.label
    Draft.branch relabel [v]
    let v ← Draft.placeOne relabel .felt252
    let v ← Draft.rename .felt252 v
    Draft.branch test [v]
    let v ← Draft.placeOne test .felt252
    let result ← Draft.ifZero v
      (do
        let zero ← Draft.const (.felt .zero)
        Draft.storeTemp .felt252 zero)
      (fun v => do
        let k ← Draft.const (.felt multiplier)
        let product ← Draft.callOne "felt252_mul" [v, k]
        Draft.storeTemp .felt252 product)
    Draft.ret [result]
  steps.source name [.felt252]

end FieldSSA
