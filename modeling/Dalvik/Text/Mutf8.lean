import Dalvik.Text.Surrogate

namespace Dalvik

namespace Mutf8

def threeBytes (unit : Nat) : List UInt8 :=
  [UInt8.ofNat (0xe0 + unit / 0x1000), UInt8.ofNat (0x80 + unit / 0x40 % 0x40), UInt8.ofNat (0x80 + unit % 0x40)]

/-- Modified UTF-8 writes the character zero in two bytes, so that no zero byte occurs, and each surrogate of a
character beyond the basic plane in three. -/
def encodeChar (c : Char) : List UInt8 :=
  if c.toNat = 0 then [0xc0, 0x80]
  else if c.toNat < 0x10000 then String.utf8EncodeChar c
  else threeBytes (Surrogate.highOf c) ++ threeBytes (Surrogate.lowOf c)

def encode (text : String) : List UInt8 := text.toList.flatMap encodeChar

def IsTrail (byte : UInt8) : Prop := 0x80 ≤ byte.toNat ∧ byte.toNat < 0xc0

instance (byte : UInt8) : Decidable (IsTrail byte) := inferInstanceAs (Decidable (_ ∧ _))

/-- The 16-bit code units that the bytes denote. Each has to be written in as few bytes as it can, except that zero
takes two. -/
def units? : List UInt8 → Option (List Nat)
  | [] => some []
  | a :: rest =>
    if 0 < a.toNat ∧ a.toNat < 0x80 then (units? rest).map (a.toNat :: ·)
    else if 0xc0 ≤ a.toNat ∧ a.toNat < 0xe0 then
      match rest with
      | b :: rest =>
        let unit := (a.toNat - 0xc0) * 0x40 + b.toNat % 0x40
        if IsTrail b ∧ (unit = 0 ∨ 0x80 ≤ unit) then (units? rest).map (unit :: ·) else none
      | [] => none
    else if 0xe0 ≤ a.toNat ∧ a.toNat < 0xf0 then
      match rest with
      | b :: c :: rest =>
        let unit := (a.toNat - 0xe0) * 0x1000 + b.toNat % 0x40 * 0x40 + c.toNat % 0x40
        if IsTrail b ∧ IsTrail c ∧ 0x800 ≤ unit then (units? rest).map (unit :: ·) else none
      | _ => none
    else none

def decode? (bytes : List UInt8) : Option String :=
  ((units? bytes).bind Surrogate.join?).map String.ofList

end Mutf8

end Dalvik
