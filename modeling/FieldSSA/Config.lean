import FieldSSA.Felt.Basic

namespace FieldSSA

structure Config where
  /-- Bits of the integers that hold field elements. -/
  width : Nat := 256
  verify : Bool := true
  warnUnused : Bool := true
deriving DecidableEq, Inhabited

inductive ConfigError where
  | widthTooSmall
  | unalignedWidth
  | widthTooLarge
deriving DecidableEq

def ConfigError.message : ConfigError → String
  | widthTooSmall => "target_width must be at least " ++ primeBits.repr ++ " bits"
  | unalignedWidth => "target_width must be a multiple of 64"
  | widthTooLarge => "target_width must be at most " ++ productBits.repr ++ " bits"

namespace Config

/-- Bits of the integers that hold products. Widths are below `2 ^ 31`, so that the double is a
number of 32 bits; of larger widths, whose double wraps around, nothing is said. -/
def wideWidth (c : Config) : Nat :=
  2 * c.width

/-- A width holds every reduced magnitude, is a multiple of 64, and its double is at most
1024. -/
def validate (c : Config) : Except ConfigError Unit :=
  if c.width < primeBits then .error .widthTooSmall
  else if c.width % 64 ≠ 0 then .error .unalignedWidth
  else if 2 * productBits < c.wideWidth then .error .widthTooLarge
  else .ok ()

def ofWidth (width : Nat) : Except ConfigError Config := do
  let c : Config := { width }
  c.validate
  return c

def text (c : Config) : String :=
  "CodegenConfig \x7b felt: i" ++ c.width.repr ++ ", wide: i" ++ c.wideWidth.repr ++
    ", verify: " ++ (if c.verify then "true" else "false") ++ " \x7d"

end Config

end FieldSSA
