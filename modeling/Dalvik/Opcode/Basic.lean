import Dalvik.Format
import Dalvik.Reference

namespace Dalvik

/-- What executing an opcode may do besides its effect on memory. -/
structure Traits where
  canThrow : Bool := false
  canContinue : Bool := false
  setsResult : Bool := false
  setsRegister : Bool := false
  setsWideRegister : Bool := false
  deriving DecidableEq, Repr, Inhabited

namespace Traits

/-- The traits as a bit set; bit 1 is reserved. -/
def bits (t : Traits) : Nat :=
  t.canThrow.toNat + 4 * t.canContinue.toNat + 8 * t.setsResult.toNat + 16 * t.setsRegister.toNat
    + 32 * t.setsWideRegister.toNat

end Traits

structure Opcode where
  value : UInt8
  mnemonic : String
  format : Format
  reference : ReferenceKind
  traits : Traits
  deriving DecidableEq, Repr, Inhabited

namespace Opcode

/-- The opcode of a byte value that carries no instruction. -/
def unused (value : UInt8) : Opcode := ⟨value, "unused", .f10x, .none, {}⟩

def isUnused (op : Opcode) : Bool := op.mnemonic = "unused"

end Opcode

end Dalvik
