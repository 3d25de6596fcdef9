import FieldSSA.Assembly.Helper
import FieldSSA.Program

namespace FieldSSA

namespace Program

/-- A header, the definitions of the helpers, then the functions, separated by blank lines. -/
def text (p : Program) (c : Config) : Except PrintError String := do
  c.printable
  let head := unlines
    ["; Felt IR module", "; Target: " ++ c.text,
      "; Functions: " ++ p.functions.length.repr ++ ", helpers: " ++ p.helpers.length.repr]
  let functions ← p.functions.mapM fun f => f.text c
  let parts := p.helpers.map (·.definition c) ++ functions
  return head ++ String.join (parts.map ("\n" ++ ·))

def declarations (p : Program) (c : Config) : Except PrintError String := do
  c.printable
  return unlines (p.helpers.map (·.declaration c))

end Program

end FieldSSA
