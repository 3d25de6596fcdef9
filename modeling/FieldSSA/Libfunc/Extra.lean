import FieldSSA.Libfunc.Basic

/-!
Libfuncs that are not built in and can be added to a registry. The later ones do not keep
what they declare: they return other types, fewer values, end the block or leave one open.
-/

namespace FieldSSA

namespace Libfunc

def felt252Square : Libfunc where
  name := "felt252_square"
  params := [.felt252]
  results := [.felt252]
  lower args := do Build.call .felt252Mul (← Build.call (.dup .felt252) args)

/-- Addition under the name of multiplication. -/
def mulAsAdd : Libfunc :=
  ofIntrinsic "felt252_mul" .felt252Add

def felt252Ne : Libfunc :=
  comparison "felt252_ne" .felt252 .ne

def oneTrue : Libfunc where
  name := "one_true"
  params := []
  results := [.felt252, .bool]
  lower _ := return [← Build.const (.felt .one), ← Build.const (.bool true)]

def dropU32 : Libfunc where
  name := "drop_u32"
  params := [.u32]
  results := []
  lower _ := return []

def lying : Libfunc where
  name := "lying"
  params := [.felt252]
  results := [.u32]
  lower := Build.call (.rename .felt252)

/-- Declares two results and returns one. -/
def short : Libfunc where
  name := "short"
  params := [.felt252]
  results := [.felt252, .felt252]
  lower := Build.call (.rename .felt252)

/-- Branches to a block that need not exist. -/
def wildBranch : Libfunc where
  name := "wild_branch"
  params := []
  results := []
  lower args := do
    Build.br ⟨⟨999⟩, args⟩
    return []

def leave : Libfunc where
  name := "leave"
  params := [.felt252]
  results := []
  lower args := do
    Build.ret args
    return []

def strayBlock : Libfunc where
  name := "stray_block"
  params := []
  results := []
  lower _ := do
    let _ ← Build.createBlock [.u32]
    return []

/-- Goes on in a new block, which gets the argument as its parameter. -/
def hop : Libfunc where
  name := "hop"
  params := [.felt252]
  results := [.felt252]
  lower args := do
    let dest ← Build.createBlock [.felt252]
    Build.br ⟨dest, args⟩
    Build.switchTo dest
    Build.blockParams dest

end Libfunc

end FieldSSA
