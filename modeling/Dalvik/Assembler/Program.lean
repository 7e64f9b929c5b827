import Dalvik.Assembler.Instruction
import Dalvik.Opcode.Table
import Dalvik.Payload.Basic

namespace Dalvik

/-- An inline data block with its content. -/
inductive PayloadBlock where
  | packedSwitch (firstKey : Int32) (targets : List Int32)
  /-- A target for each key. -/
  | sparseSwitch (cases : List (Int32 × Int32))
  | arrayData (width : UInt16) (count : UInt32) (data : List UInt8)

namespace PayloadBlock

def kind : PayloadBlock → PayloadKind
  | packedSwitch .. => .packedSwitch
  | sparseSwitch .. => .sparseSwitch
  | arrayData .. => .arrayData

/-- The number of entries fits in its field, and array data has its elements and no more. -/
def Legal : PayloadBlock → Prop
  | packedSwitch _ targets => targets.length < 0x10000
  | sparseSwitch cases => cases.length < 0x10000
  | arrayData width count data => data.length = width.toNat * count.toNat

def wordBytes (v : Int32) : List UInt8 := signedBytes 4 v.toInt

/-- What follows the `nop` byte and the marker; data of odd length is padded. -/
def body : PayloadBlock → List UInt8
  | packedSwitch firstKey targets =>
    littleEndianBytes 2 targets.length ++ wordBytes firstKey ++ targets.flatMap wordBytes
  | sparseSwitch cases =>
    littleEndianBytes 2 cases.length ++ cases.flatMap (wordBytes ·.1) ++ cases.flatMap (wordBytes ·.2)
  | arrayData width count data =>
    littleEndianBytes 2 width.toNat ++ littleEndianBytes 4 count.toNat ++ data ++
      List.replicate (data.length % 2) 0

def assemble (block : PayloadBlock) : List UInt8 := 0 :: block.kind.marker :: block.body

end PayloadBlock

/-- A line of a program to assemble. -/
inductive Statement where
  | instruction (op : Opcode) (operands : List Operand)
  | payload (block : PayloadBlock)

namespace Statement

def Legal (base : UInt32) (pool : ConstantPool) : Statement → Prop
  | instruction op operands => op ∈ Opcode.table ∧ op.Legal base pool operands
  | payload block => block.Legal

def assemble (base : UInt32) : Statement → List UInt8
  | instruction op operands => op.assemble base operands
  | payload block => block.assemble

end Statement

/-- The code of a method whose statements stand one after the other. -/
def assemble (base : UInt32) (program : List Statement) : List UInt8 := program.flatMap (Statement.assemble base)

end Dalvik
