namespace Dalvik

def decimal (n : Nat) : String := String.ofList (Nat.toDigits 10 n)

/-- A minus sign stands before the digits of a negative number, and nothing before the others. -/
def signedDecimal (v : Int) : String :=
  if v < 0 then "-" ++ decimal v.natAbs else decimal v.natAbs

/-- Lowercase hexadecimal digits without superfluous zeros. -/
def hex (n : Nat) : String := String.ofList (Nat.toDigits 16 n)

/-- Hexadecimal with zeros in front up to `width` digits; longer numbers keep all theirs. -/
def hexPadded (width n : Nat) : String := String.ofList ((Nat.toDigits 16 n).leftpad width '0')

/-- The text with blanks after it up to `width` characters. -/
def padRight (width : Nat) (text : String) : String := String.ofList (text.toList.rightpad width ' ')

end Dalvik
