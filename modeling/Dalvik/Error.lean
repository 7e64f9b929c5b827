import Dalvik.Numeral
import Dalvik.Payload.Basic
import Dalvik.Reference

namespace Dalvik

/-- Broad category of a failure. -/
inductive ErrorKind where
  | unreachableOpcode | truncatedBuffer | unresolvedPoolIndex | malformedInstruction
  deriving DecidableEq, Repr, Inhabited

/-- What went wrong. -/
inductive Fault where
  /-- An index was to be resolved for an opcode that refers to no table. -/
  | noReferenceTable (index : UInt32)
  | unresolvedIndex (kind : ReferenceKind) (index : UInt32)
  | tooManyArguments (mnemonic : String) (count : Nat)
  | noInstruction (offset length : Nat)
  | truncatedInstruction (mnemonic : String) (offset need available : Nat)
  | oddLength (length : Nat)
  | truncatedPayload (kind : PayloadKind) (need left : Nat)
  /-- A field did not fit in the bytes left at its start. -/
  | endOfCode (left : Nat)
  deriving DecidableEq, Repr

namespace Fault

def kind : Fault → ErrorKind
  | noReferenceTable .. => .unreachableOpcode
  | unresolvedIndex .. => .unresolvedPoolIndex
  | tooManyArguments .. => .malformedInstruction
  | noInstruction .. | truncatedInstruction .. | oddLength .. | truncatedPayload ..
  | endOfCode .. => .truncatedBuffer

def message : Fault → String
  | noReferenceTable index => "No reference table for index " ++ decimal index.toNat
  | unresolvedIndex kind index => kind.name ++ " index " ++ decimal index.toNat ++ " out of range"
  | tooManyArguments mnemonic count => mnemonic ++ " argument count " ++ decimal count ++ " exceeds 5"
  | noInstruction offset length =>
    "No instruction at 0x" ++ hex offset ++ ", code is " ++ decimal length ++ " bytes"
  | truncatedInstruction mnemonic offset need available =>
    "Truncated " ++ mnemonic ++ " at 0x" ++ hex offset ++ ": need " ++ decimal need ++ " bytes, have "
      ++ decimal available
  | oddLength length => "Odd-length method bytecode (" ++ decimal length ++ " bytes)"
  | truncatedPayload kind need left =>
    kind.name ++ " needs " ++ decimal need ++ " bytes, " ++ decimal left ++ " left"
  | endOfCode left => "Unexpected end of code with " ++ decimal left ++ " bytes left"

end Fault

/-- Where in a method a fault arose. -/
inductive Context where
  | instruction (mnemonic : String) (offset : Nat)
  | payload (offset : Nat)
  deriving DecidableEq, Repr

namespace Context

def text : Context → String
  | instruction mnemonic offset => mnemonic ++ " at 0x" ++ hex offset
  | payload offset => "payload at 0x" ++ hex offset

end Context

/-- A fault with the contexts it passed through, innermost first. -/
structure DecodeError where
  fault : Fault
  contexts : List Context := []
  deriving DecidableEq, Repr

namespace DecodeError

def kind (e : DecodeError) : ErrorKind := e.fault.kind

def inContext (e : DecodeError) (context : Context) : DecodeError :=
  { e with contexts := e.contexts ++ [context] }

def text (e : DecodeError) : String :=
  match e.contexts with
  | [] => e.fault.message
  | contexts => e.fault.message ++ " for " ++ " of ".intercalate (contexts.map Context.text)

end DecodeError

end Dalvik
