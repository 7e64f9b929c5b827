import Dalvik.Opcode.Basic
import Dalvik.Operand.Basic

namespace Dalvik

structure Instruction where
  /-- Byte offset of the opcode byte from the start of the method's code. -/
  offset : Nat
  opcode : Opcode
  operands : List Operand
  deriving DecidableEq, Repr

/-- Text-only view of an instruction. -/
structure TextRecord where
  mnemonic : String
  format : Format
  operands : List String
  deriving DecidableEq, Repr

namespace Instruction

def mnemonic (i : Instruction) : String := i.opcode.mnemonic

def format (i : Instruction) : Format := i.opcode.format

/-- Number of bytes the instruction occupies. -/
def size (i : Instruction) : Nat := i.format.size

/-- Offset in 16-bit code units. -/
def unitOffset (i : Instruction) : Nat := i.offset / 2

def record (i : Instruction) : TextRecord := ⟨i.mnemonic, i.format, i.operands.map Operand.text⟩

/-- Appends the operands to the line, the first after `separator` and the others after a comma. -/
def appendOperands (line separator : String) : List Operand → String
  | [] => line
  | operand :: rest => appendOperands (line ++ separator ++ operand.text) ", " rest

def text (i : Instruction) : String := appendOperands i.mnemonic " " i.operands

end Instruction

end Dalvik
