import Dalvik.Log
import Dalvik.Opcode.Basic
import Dalvik.Pool.Basic
import Dalvik.Reader

namespace Dalvik

open Reader

namespace Operand

def ofRegister (number : Nat) : Operand := register (UInt16.ofNat number)

def ofLiteral (value : Int) : Operand := literal (Int64.ofInt value)

def addressFrom (base : UInt32) (displacement : Int) : Int64 :=
  Int64.ofNat base.toNat + Int64.ofInt displacement

end Operand

open Operand

/-- The opcode whose high literal fills a 64-bit register pair. -/
def constWideHigh16 : UInt8 := 0x19

/-- The byte after the opcode byte. -/
def secondByte : Reader Nat := do
  let _ ← byte
  byte

/-- Reads the operands from the opcode byte on. The fields are read in the order in which they stand, and
a reference is resolved once all of them are there. Formats 10x and 3rc have no operands to read. -/
def Opcode.readOperands (op : Opcode) (base : UInt32) (pool : ConstantPool) : Reader (List Operand) :=
  match op.format with
  | .f10x | .f3rc => pure []
  | .f10t => do
    let _ ← byte
    let displacement ← signedField 1
    return [target (addressFrom base displacement)]
  | .f11n => do
    let ba ← secondByte
    return [ofRegister (ba % 16), ofLiteral (Int.bmod (ba / 16 : Nat) 16)]
  | .f11x => do
    let aa ← secondByte
    return [ofRegister aa]
  | .f12x => do
    let ba ← secondByte
    return [ofRegister (ba % 16), ofRegister (ba / 16)]
  | .f20t => do
    let _ ← secondByte
    let displacement ← signedField 2
    return [target (addressFrom base displacement)]
  | .f21c => do
    let aa ← secondByte
    let index ← field 2
    let entry ← pool.resolve op.reference (UInt32.ofNat index)
    return [ofRegister aa, entry]
  | .f21h => do
    let aa ← secondByte
    let bits ← field 2
    return [ofRegister aa, high (UInt16.ofNat bits) (op.value = constWideHigh16)]
  | .f21s => do
    let aa ← secondByte
    let value ← signedField 2
    return [ofRegister aa, ofLiteral value]
  | .f21t => do
    let aa ← secondByte
    let displacement ← signedField 2
    return [ofRegister aa, target (addressFrom base displacement)]
  | .f22b => do
    let aa ← secondByte
    let bb ← byte
    let value ← signedField 1
    return [ofRegister aa, ofRegister bb, ofLiteral value]
  | .f22c => do
    let ba ← secondByte
    let index ← field 2
    let entry ← pool.resolve op.reference (UInt32.ofNat index)
    return [ofRegister (ba % 16), ofRegister (ba / 16), entry]
  | .f22s => do
    let ba ← secondByte
    let value ← signedField 2
    return [ofRegister (ba % 16), ofRegister (ba / 16), ofLiteral value]
  | .f22t => do
    let ba ← secondByte
    let displacement ← signedField 2
    return [ofRegister (ba % 16), ofRegister (ba / 16), target (addressFrom base displacement)]
  | .f22x => do
    let aa ← secondByte
    let bbbb ← field 2
    return [ofRegister aa, ofRegister bbbb]
  | .f23x => do
    let aa ← secondByte
    let bb ← byte
    let cc ← byte
    return [ofRegister aa, ofRegister bb, ofRegister cc]
  | .f30t => do
    let _ ← secondByte
    let displacement ← signedField 4
    return [farTarget (addressFrom base displacement)]
  | .f31c => do
    let aa ← secondByte
    let index ← field 4
    let entry ← pool.resolve op.reference (UInt32.ofNat index)
    return [ofRegister aa, entry]
  | .f31i => do
    let aa ← secondByte
    let value ← signedField 4
    return [ofRegister aa, ofLiteral value]
  | .f31t => do
    let aa ← secondByte
    let displacement ← signedField 4
    return [ofRegister aa, target (addressFrom base displacement)]
  | .f32x => do
    let _ ← secondByte
    let aaaa ← field 2
    let bbbb ← field 2
    return [ofRegister aaaa, ofRegister bbbb]
  | .f35c => do
    let ag ← secondByte
    let index ← field 2
    let dc ← byte
    let fe ← byte
    let count := ag / 16
    if 5 < count then
      throw (.tooManyArguments op.mnemonic count)
    else
      let entry ← pool.resolve op.reference (UInt32.ofNat index)
      let registers := [dc % 16, dc / 16, fe % 16, fe / 16, ag % 16].take count
      return registers.map ofRegister ++ [entry]
  | .f51l => do
    let aa ← secondByte
    let value ← signedField 8
    return [ofRegister aa, ofLiteral value]

/-- The operands in the bytes of one instruction. Further bytes and the value of the first are ignored. -/
def Opcode.operands (op : Opcode) (unit : List UInt8) (base : UInt32) (pool : ConstantPool) :
    Except Fault (List Operand) :=
  (op.readOperands base pool).run' unit

/-- As `Opcode.operands`, and logs the bytes it starts from. -/
def Opcode.tracedOperands (op : Opcode) (unit : List UInt8) (base : UInt32) (pool : ConstantPool) :
    Logged (Except DecodeError (List Operand)) where
  value := (op.operands unit base pool).mapError fun fault => ⟨fault, []⟩
  log := [.decoding op.mnemonic op.format (unit.take op.format.size)]

end Dalvik
