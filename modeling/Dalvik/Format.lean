namespace Dalvik

/-- An instruction format, named as in the bytecode documentation: the number of code units, the
number of registers (`r` for a range) and a letter for what else is encoded. -/
inductive Format where
  | f10t | f10x | f11n | f11x | f12x
  | f20t | f21c | f21h | f21s | f21t | f22b | f22c | f22s | f22t | f22x | f23x
  | f30t | f31c | f31i | f31t | f32x | f35c | f3rc
  | f51l
  deriving DecidableEq, Repr, Inhabited

namespace Format

def all : List Format :=
  [f10t, f10x, f11n, f11x, f12x,
   f20t, f21c, f21h, f21s, f21t, f22b, f22c, f22s, f22t, f22x, f23x,
   f30t, f31c, f31i, f31t, f32x, f35c, f3rc,
   f51l]

/-- Length in 16-bit code units. -/
def units : Format → Nat
  | f10t | f10x | f11n | f11x | f12x => 1
  | f20t | f21c | f21h | f21s | f21t | f22b | f22c | f22s | f22t | f22x | f23x => 2
  | f30t | f31c | f31i | f31t | f32x | f35c | f3rc => 3
  | f51l => 5

/-- Length in bytes. -/
def size (f : Format) : Nat := f.units * 2

def tag : Format → String
  | f10t => "10t" | f10x => "10x" | f11n => "11n" | f11x => "11x" | f12x => "12x"
  | f20t => "20t" | f21c => "21c" | f21h => "21h" | f21s => "21s" | f21t => "21t" | f22b => "22b"
  | f22c => "22c" | f22s => "22s" | f22t => "22t" | f22x => "22x" | f23x => "23x"
  | f30t => "30t" | f31c => "31c" | f31i => "31i" | f31t => "31t" | f32x => "32x" | f35c => "35c"
  | f3rc => "3rc"
  | f51l => "51l"

def ofTag? (tag : String) : Option Format := all.find? (·.tag = tag)

/-- Whether the operands include the address of a branch or of a payload. -/
def isBranch : Format → Bool
  | f10t | f20t | f21t | f22t | f30t | f31t => true
  | _ => false

/-- Whether the operands include an index into the constant pool. -/
def isReference : Format → Bool
  | f21c | f22c | f31c | f35c => true
  | _ => false

end Format

end Dalvik
