import Dalvik.Disassembly.Basic
import Dalvik.Instruction.Decode
import Dalvik.Payload.Scan

namespace Dalvik

/-- Decodes the item at `offset` whose first byte is `first`, followed by `rest`. -/
def itemFrom (offset : Nat) (first : UInt8) (rest : List UInt8) (base : UInt32) (pool : ConstantPool) :
    Logged (Except DecodeError Item) :=
  match scanPayload (first :: rest) with
  | .error fault => ⟨.error ⟨fault, [.payload offset]⟩, []⟩
  | .ok (some (kind, length)) => ⟨.ok (.payload ⟨offset, length, kind⟩), [.skipping kind length offset]⟩
  | .ok none =>
    let decoded := instructionFrom offset first rest base pool
    ⟨decoded.value.map .instruction, decoded.log⟩

/-- Decodes item after item from `offset` on, until the code ends or an item fails. The items and the log so
far are kept with the latest first. -/
def sweep (base : UInt32) (pool : ConstantPool) (offset : Nat) (items : List Item) (log : List Event)
    (code : List UInt8) : Logged (Except DecodeError (List Item)) :=
  match code with
  | [] => ⟨.ok items.reverse, log.reverse⟩
  | first :: rest =>
    match itemFrom offset first rest base pool with
    | ⟨.error e, events⟩ => ⟨.error e, log.reverse ++ events⟩
    | ⟨.ok item, events⟩ =>
      sweep base pool (offset + item.size) (item :: items) (events.reverse ++ log) (rest.drop (item.size - 1))
termination_by code.length

/-- The items of a whole method body, whose length is a number of code units. -/
def disassembleItems (code : List UInt8) (base : UInt32) (pool : ConstantPool) :
    Logged (Except DecodeError (List Item)) :=
  if code.length % 2 = 1 then ⟨.error ⟨.oddLength code.length, []⟩, []⟩
  else sweep base pool 0 [] [] code

/-- Decodes a whole method body, with branch targets relative to `base`. Any fault fails the method. -/
def disassemble (code : List UInt8) (base : UInt32) (pool : ConstantPool) :
    Logged (Except DecodeError Disassembly) :=
  match disassembleItems code base pool with
  | ⟨.ok items, log⟩ => ⟨.ok (.ofItems items), log⟩
  | ⟨.error e, log⟩ => ⟨.error e, log ++ [.aborting base e]⟩

/-- Decodes without tables: references are named after their table and index. -/
def disassembleWithoutTables (code : List UInt8) (base : UInt32) : Logged (Except DecodeError Disassembly) :=
  disassemble code base .placeholder

/-- The code of one method as its container hands it over. -/
structure MethodBody where
  code : List UInt8
  /-- Base of every branch displacement, usually the offset of the code in its container. -/
  base : UInt32

namespace MethodBody

def disassemble (m : MethodBody) (pool : ConstantPool) : Logged (Except DecodeError Disassembly) :=
  Dalvik.disassemble m.code m.base pool

end MethodBody

end Dalvik
