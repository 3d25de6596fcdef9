import FieldSSA.Binary.Function
import FieldSSA.Digest
import FieldSSA.Error

namespace FieldSSA

namespace Function

def toBytes (f : Function) : List UInt8 :=
  Binary.encode f

/-- Decode without verification. Bytes after the function are ignored. -/
def decodeBytes (bytes : List UInt8) : Except IrError Function :=
  match (Binary.decode : Decoder Function).run bytes with
  | .ok (f, _) => .ok f
  | .error e => .error (.encoding e)

def ofBytes (bytes : List UInt8) : Except IrError Function := do
  let f ← decodeBytes bytes
  return (← f.verified).1

def fingerprint (f : Function) : List UInt8 :=
  sha256 f.toBytes

end Function

def Felt.ofBytes (bytes : List UInt8) : Except DecodeError Felt :=
  Prod.fst <$> (Binary.decode : Decoder Felt).run bytes

end FieldSSA
