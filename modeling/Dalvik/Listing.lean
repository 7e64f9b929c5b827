import Dalvik.Disassembly.Basic
import Dalvik.Registers

namespace Dalvik

namespace Listing

structure Options where
  /-- Names parameter registers `pN` if given. -/
  registers : Option Registers := none
  /-- Whether an empty line follows an instruction from which control does not reach the next. -/
  separateBlocks : Bool := false
  showPayloads : Bool := false

/-- The number of code units that a hexadecimal column shows. -/
def columnUnits : Nat := 7

/-- Mnemonic and operands, with registers named by `registers`. -/
def renderInstruction (i : Instruction) (registers : Option Registers) : String :=
  match i.operands.map (Operand.render (Registers.name? registers)) with
  | [] => i.mnemonic
  | operands => i.mnemonic ++ " " ++ ", ".intercalate operands

/-- The bytes in groups of two; an odd last byte is alone. -/
def unitTexts : List UInt8 → List String
  | [] => []
  | [a] => [hexPadded 2 a.toNat]
  | a :: b :: rest => (hexPadded 2 a.toNat ++ hexPadded 2 b.toNat) :: unitTexts rest

/-- The first units among the `length` bytes from `start` on, as far as the code reaches, and an ellipsis if
there are more. -/
def hexColumn (code : List UInt8) (start length : Nat) : String :=
  let bytes := (code.drop start).take length
  let shown := unitTexts (bytes.take (columnUnits * 2))
  " ".intercalate (if columnUnits * 2 < bytes.length then shown ++ ["..."] else shown)

/-- Address, hexadecimal column, offset in code units, text. -/
def line (base : UInt32) (offset : Nat) (column text : String) : String :=
  hexPadded 8 (base.toNat + offset) ++ ": " ++ padRight 36 column ++ "|" ++ hexPadded 4 (offset / 2) ++ ": " ++ text

def instructionLine (code : List UInt8) (base : UInt32) (i : Instruction) (registers : Option Registers) : String :=
  line base i.offset (hexColumn code i.offset i.size) (renderInstruction i registers)

def payloadLine (code : List UInt8) (base : UInt32) (span : PayloadSpan) : String :=
  line base span.start (hexColumn code span.start span.length)
    (span.kind.name ++ " (" ++ decimal (span.length / 2) ++ " units)")

def payloadLines (code : List UInt8) (base : UInt32) (options : Options) (spans : List PayloadSpan) : List String :=
  if options.showPayloads then spans.map (payloadLine code base) else []

def instructionLines (code : List UInt8) (base : UInt32) (options : Options) (i : Instruction) : List String :=
  instructionLine code base i options.registers ::
    if options.separateBlocks && !i.opcode.traits.canContinue then [""] else []

/-- Merges the two sources: before an instruction stand the payloads that start before it, and after the last
instruction the others. -/
def merge (code : List UInt8) (base : UInt32) (options : Options) :
    List Instruction → List PayloadSpan → List String
  | [], spans => payloadLines code base options spans
  | i :: rest, spans =>
    payloadLines code base options (spans.takeWhile (·.start < i.offset)) ++
      instructionLines code base options i ++
      merge code base options rest (spans.dropWhile (·.start < i.offset))

end Listing

/-- The lines of a whole method, instructions and payloads in address order. The hexadecimal columns show
the bytes of `code`. -/
def listing (code : List UInt8) (base : UInt32) (d : Disassembly) (options : Listing.Options) : List String :=
  Listing.merge code base options d.instructions d.payloads

end Dalvik
