import Dalvik.Error
import Dalvik.Format

namespace Dalvik

inductive Level where
  | trace | debug | warn
  deriving DecidableEq, Repr

/-- A message logged during decoding. -/
inductive Event where
  | decoding (mnemonic : String) (format : Format) (bytes : List UInt8)
  | skipping (kind : PayloadKind) (length offset : Nat)
  | aborting (base : UInt32) (error : DecodeError)
  | lossyString (index : Nat)
  deriving DecidableEq, Repr

namespace Event

def level : Event → Level
  | decoding .. => .trace
  | skipping .. => .debug
  | aborting .. | lossyString .. => .warn

/-- Two hexadecimal digits a byte, as in `[1a, 00]`. -/
def bytesText (bytes : List UInt8) : String :=
  "[" ++ ", ".intercalate (bytes.map fun b => hexPadded 2 b.toNat) ++ "]"

def message : Event → String
  | decoding mnemonic format bytes =>
    "decoding " ++ mnemonic ++ " (" ++ format.tag ++ ") from " ++ bytesText bytes
  | skipping kind length offset =>
    "[decode] skipping " ++ kind.name ++ " of " ++ decimal length ++ " bytes at 0x" ++ hex offset
  | aborting base error =>
    "[decode] aborting method decode at base 0x" ++ hex base.toNat ++ ": " ++ error.text
  | lossyString index =>
    "[pool] string #" ++ decimal index ++ " is not valid MUTF-8, decoding lossily"

end Event

/-- A value with the events logged while it was computed, oldest first. -/
structure Logged (α : Type) where
  value : α
  log : List Event

end Dalvik
