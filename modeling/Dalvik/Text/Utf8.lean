namespace Dalvik

namespace Utf8

def encode (text : String) : List UInt8 := text.toList.flatMap String.utf8EncodeChar

/-- The bits of a character in its first byte and the ranges in which the bytes after it have to lie. The ranges
of the second byte leave out longer forms than needed, surrogates, and numbers beyond the last character. -/
def first? (byte : Nat) : Option (Nat × List (Nat × Nat)) :=
  let any := (0x80, 0xbf)
  if byte < 0x80 then some (byte, [])
  else if byte < 0xc2 then none
  else if byte < 0xe0 then some (byte - 0xc0, [any])
  else if byte = 0xe0 then some (0, [(0xa0, 0xbf), any])
  else if byte = 0xed then some (0xd, [(0x80, 0x9f), any])
  else if byte < 0xf0 then some (byte - 0xe0, [any, any])
  else if byte = 0xf0 then some (0, [(0x90, 0xbf), any, any])
  else if byte = 0xf4 then some (4, [(0x80, 0x8f), any, any])
  else if byte < 0xf4 then some (byte - 0xf0, [any, any, any])
  else none

/-- The bytes at the front that lie in the ranges, each in its own. -/
def matching : List (Nat × Nat) → List UInt8 → List UInt8
  | (low, high) :: ranges, byte :: rest =>
    if low ≤ byte.toNat ∧ byte.toNat ≤ high then byte :: matching ranges rest else []
  | _, _ => []

/-- Cuts the bytes into characters and the longest beginnings of a character that cannot be completed. A byte
that begins no character is a piece of its own. -/
def pieces : List UInt8 → List (Option Char)
  | [] => []
  | byte :: rest =>
    match first? byte.toNat with
    | none => none :: pieces rest
    | some (bits, ranges) =>
      let trail := matching ranges rest
      let piece :=
        if trail.length = ranges.length then
          some (Char.ofNat (trail.foldl (fun value b => value * 64 + b.toNat % 64) bits))
        else none
      piece :: pieces (rest.drop trail.length)
termination_by bytes => bytes.length

def decode? (bytes : List UInt8) : Option String := ((pieces bytes).mapM id).map String.ofList

/-- The replacement character stands for each piece that is no character. -/
def decodeLossy (bytes : List UInt8) : String :=
  String.ofList ((pieces bytes).map (·.getD (Char.ofNat 0xfffd)))

end Utf8

end Dalvik
