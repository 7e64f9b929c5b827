namespace Dalvik

namespace Surrogate

def IsHigh (unit : Nat) : Prop := 0xd800 ≤ unit ∧ unit < 0xdc00

def IsLow (unit : Nat) : Prop := 0xdc00 ≤ unit ∧ unit < 0xe000

instance (unit : Nat) : Decidable (IsHigh unit) := inferInstanceAs (Decidable (_ ∧ _))

instance (unit : Nat) : Decidable (IsLow unit) := inferInstanceAs (Decidable (_ ∧ _))

/-- The surrogates that stand for a character beyond the basic plane. -/
def highOf (c : Char) : Nat := 0xd800 + (c.toNat - 0x10000) / 0x400

def lowOf (c : Char) : Nat := 0xdc00 + (c.toNat - 0x10000) % 0x400

def pair (high low : Nat) : Char := Char.ofNat (0x10000 + (high - 0xd800) * 0x400 + (low - 0xdc00))

/-- The characters that a list of code points denotes when those beyond the basic plane may be split into
surrogates. A high surrogate has to be followed by a low one, and a low one to follow a high one. -/
def join? : List Nat → Option (List Char)
  | [] => some []
  | [unit] => if IsHigh unit ∨ IsLow unit then none else some [Char.ofNat unit]
  | unit :: next :: rest =>
    if IsHigh unit then
      if IsLow next then (join? rest).map (pair unit next :: ·) else none
    else if IsLow unit then none
    else (join? (next :: rest)).map (Char.ofNat unit :: ·)

end Surrogate

end Dalvik
