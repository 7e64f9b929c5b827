import Dalvik.Instruction.Basic
import Dalvik.Opcode.Table
import Dalvik.Operand.Decode

namespace Dalvik

/-- Decodes the instruction at `offset` whose opcode byte is `first`, followed by `rest`. The payload blocks
are not recognised here: the start of one is a `nop`. -/
def instructionFrom (offset : Nat) (first : UInt8) (rest : List UInt8) (base : UInt32) (pool : ConstantPool) :
    Logged (Except DecodeError Instruction) :=
  let op := Opcode.ofByte first
  let unit := (first :: rest).take op.format.size
  if unit.length < op.format.size then
    ⟨.error ⟨.truncatedInstruction op.mnemonic offset op.format.size unit.length, []⟩, []⟩
  else
    let operands := op.tracedOperands unit base pool
    match operands.value with
    | .ok operands' => ⟨.ok ⟨offset, op, operands'⟩, operands.log⟩
    | .error e => ⟨.error (e.inContext (.instruction op.mnemonic offset)), operands.log⟩

/-- Decodes the single instruction that starts at `offset`, which may be any byte of the code. -/
def instructionAt (code : List UInt8) (offset : Nat) (base : UInt32) (pool : ConstantPool) :
    Logged (Except DecodeError Instruction) :=
  match code.drop offset with
  | [] => ⟨.error ⟨.noInstruction offset code.length, []⟩, []⟩
  | first :: rest => instructionFrom offset first rest base pool

end Dalvik
