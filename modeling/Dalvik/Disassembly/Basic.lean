import Dalvik.Instruction.Basic
import Dalvik.IntervalMap
import Dalvik.Payload.Basic

namespace Dalvik

/-- The bytes of one payload block. -/
structure PayloadSpan where
  start : Nat
  length : Nat
  kind : PayloadKind
  deriving DecidableEq, Repr

/-- What a method's code consists of. -/
inductive Item where
  | instruction (i : Instruction)
  | payload (span : PayloadSpan)
  deriving DecidableEq, Repr

namespace Item

def start : Item → Nat
  | instruction i => i.offset
  | payload span => span.start

def size : Item → Nat
  | instruction i => i.size
  | payload span => span.length

def instruction? : Item → Option Instruction
  | instruction i => some i
  | payload _ => none

def payload? : Item → Option PayloadSpan
  | instruction _ => none
  | payload span => some span

end Item

/-- The instructions of one method in program order, and the payload blocks skipped between them. -/
structure Disassembly where
  instructions : List Instruction := []
  /-- The value of an interval holds the start of its block, so that touching blocks of one kind stay two. -/
  payloadMap : IntervalMap (Nat × PayloadKind) := {}
  deriving DecidableEq, Repr

namespace Disassembly

def ofItems (items : List Item) : Disassembly where
  instructions := items.filterMap Item.instruction?
  payloadMap := (items.filterMap Item.payload?).foldl
    (fun m span => m.insert ⟨span.start, span.start + span.length, (span.start, span.kind)⟩) {}

/-- The payload blocks in ascending order. -/
def payloads (d : Disassembly) : List PayloadSpan :=
  d.payloadMap.toList.map fun i => ⟨i.start, i.stop - i.start, i.value.2⟩

/-- Kind of the payload that covers a byte offset. -/
def payloadKindAt? (d : Disassembly) (offset : Nat) : Option PayloadKind :=
  (d.payloadMap.get? offset).map (·.2)

/-- Names of all pool references of one kind, in program order. -/
def references (d : Disassembly) (kind : ReferenceKind) : List String :=
  d.instructions.flatMap fun i => Operand.namesOf kind i.operands

/-- The opcodes that load a string of the pool. -/
def loadsString (op : Opcode) : Bool := op.value = 0x1a || op.value = 0x1b

/-- The string loaded by each instruction that loads one. -/
def loadedStrings (d : Disassembly) : List String :=
  (d.instructions.filter (loadsString ·.opcode)).filterMap fun i => i.operands.getLast?.bind Operand.referenceName?

def records (d : Disassembly) : List TextRecord := d.instructions.map Instruction.record

end Disassembly

end Dalvik
