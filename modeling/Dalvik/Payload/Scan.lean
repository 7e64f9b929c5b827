import Dalvik.Payload.Basic
import Dalvik.Reader

namespace Dalvik

open Reader

namespace PayloadKind

/-- Reads the length in bytes of a whole block from the header that follows its marker: a packed switch has a
first key and a target an entry, a sparse switch a key and a target, array data an element width and count
and is padded to a code unit. -/
def readLength : PayloadKind → Reader Nat
  | packedSwitch => do
    let entries ← field 2
    return (entries * 2 + 4) * 2
  | sparseSwitch => do
    let entries ← field 2
    return (entries * 4 + 2) * 2
  | arrayData => do
    let width ← field 2
    let count ← field 4
    return 8 + (width * count + 1) / 2 * 2

end PayloadKind

/-- The kind and length of the block at the front of `rest`, or `none` for an ordinary instruction, a plain `nop`
among them. -/
def scanPayload (rest : List UInt8) : Except Fault (Option (PayloadKind × Nat)) :=
  match rest with
  | 0 :: marker :: header =>
    match PayloadKind.ofMarker? marker with
    | none => .ok none
    | some kind => do
      let length ← kind.readLength.run' header
      let left := (rest.take length).length
      if left < length then .error (.truncatedPayload kind length left)
      else .ok (some (kind, length))
  | _ => .ok none

/-- The block that starts at the byte `offset` of the code. -/
def payloadAt (code : List UInt8) (offset : Nat) : Except Fault (Option (PayloadKind × Nat)) :=
  scanPayload (code.drop offset)

end Dalvik
