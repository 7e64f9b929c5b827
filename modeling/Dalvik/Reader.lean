import Dalvik.Error

namespace Dalvik

/-- Value of bytes that stand least significant first. -/
def littleEndian : List UInt8 → Nat
  | [] => 0
  | b :: rest => b.toNat + 256 * littleEndian rest

/-- The `width` low bytes of `n`, least significant first. -/
def littleEndianBytes : (width n : Nat) → List UInt8
  | 0, _ => []
  | width + 1, n => UInt8.ofNat n :: littleEndianBytes width (n / 256)

/-- How many values a field of `width` bytes can hold. -/
def fieldRange (width : Nat) : Nat := Nat.pow 256 width

/-- A reader takes fields from the front of the code. -/
abbrev Reader := StateT (List UInt8) (Except Fault)

namespace Reader

/-- An unsigned field of `width` bytes. Only these bytes of the code are looked at. -/
def field (width : Nat) : Reader Nat := fun code =>
  let bytes := code.take width
  if bytes.length < width then .error (.endOfCode bytes.length)
  else .ok (littleEndian bytes, code.drop width)

def byte : Reader Nat := field 1

/-- A field of `width` bytes in two's complement. -/
def signedField (width : Nat) : Reader Int := do
  return Int.bmod (← field width) (fieldRange width)

end Reader

end Dalvik
