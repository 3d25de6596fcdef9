import FieldSSA.Source.ZeroTest

namespace FieldSSA

inductive FeltTerm where
  | const (k : Felt)
  | scale (k : Felt)
  | offset (k : Felt)
  | seq (first second : FeltTerm)
  /-- A constant on zero, and a term on every other element. -/
  | ifZero (onZero : Felt) (onNonzero : FeltTerm)
deriving DecidableEq

namespace FeltTerm

def eval : FeltTerm → Felt → Felt
  | const k, _ => k
  | scale k, v => v * k
  | offset k, v => v + k
  | seq first second, v => second.eval (first.eval v)
  | ifZero onZero onNonzero, v => if v = .zero then onZero else onNonzero.eval v

def draftConst (k : Felt) : Drafting Var := do
  let c ← Draft.const (.felt k)
  Draft.storeTemp .felt252 c

def draftWith (libfunc : String) (k : Felt) (v : Var) : Drafting Var := do
  let c ← Draft.const (.felt k)
  let result ← Draft.callOne libfunc [v, c]
  Draft.storeTemp .felt252 result

def draft : FeltTerm → Var → Drafting Var
  | const k, _ => draftConst k
  | scale k, v => draftWith "felt252_mul" k v
  | offset k, v => draftWith "felt252_add" k v
  | seq first second, v => do second.draft (← first.draft v)
  | ifZero onZero onNonzero, v => Draft.ifZero v (draftConst onZero) onNonzero.draft

/-- The source of a function of one parameter that returns a term on it. -/
def source (t : FeltTerm) (name : String) : Source :=
  let steps : Drafting Unit := do
    let v ← Draft.param .felt252
    let result ← t.draft v
    Draft.ret [result]
  steps.source name [.felt252]

end FeltTerm

end FieldSSA
