import Dalvik.Numeral
import Dalvik.Reference

namespace Dalvik

inductive Operand where
  | register (number : UInt16)
  | literal (value : Int64)
  /-- The 16 high bits of a 32-bit constant, or of a 64-bit one if `wide`. -/
  | high (bits : UInt16) (wide : Bool)
  /-- Address of a branch or payload: the base plus the displacement. -/
  | target (address : Int64)
  /-- Address reached by a branch that is written with an explicit sign. -/
  | farTarget (address : Int64)
  | reference (kind : ReferenceKind) (index : UInt32) (name : String)
  deriving DecidableEq, Repr

namespace Operand

def register? : Operand → Option UInt16
  | register number => some number
  | _ => none

/-- The number a literal stands for, high bits shifted into place and read in two's complement. -/
def literalValue? : Operand → Option Int64
  | literal value => some value
  | high bits false => some (Int64.ofInt (Int.bmod (bits.toNat * 0x10000) 0x100000000))
  | high bits true => some (Int64.ofInt (Int.bmod (bits.toNat * 0x1000000000000) 0x10000000000000000))
  | _ => none

def target? : Operand → Option Int64
  | target address | farTarget address => some address
  | _ => none

def referenceName? : Operand → Option String
  | reference _ _ name => some name
  | _ => none

/-- The names that the operands of `operands` give to entries of the table `kind`. -/
def namesOf (kind : ReferenceKind) (operands : List Operand) : List String :=
  operands.filterMap fun
    | reference k _ name => if k = kind then some name else Option.none
    | _ => Option.none

/-- At least four digits, the sign of a negative address in front of the padding. -/
def addressText (address : Int64) : String :=
  let v := address.toInt
  if v < 0 then "-" ++ hexPadded 4 v.natAbs else hexPadded 4 v.natAbs

/-- An address that always shows its sign. -/
def signedAddressText (address : Int64) : String :=
  let v := address.toInt
  (if v < 0 then "-" else "+") ++ hex v.natAbs

def registerText (number : UInt16) : String := "v" ++ decimal number.toNat

def text : Operand → String
  | register number => registerText number
  | literal value => signedDecimal value.toInt
  | high bits wide => "@" ++ hex bits.toNat ++ if wide then "000000000000" else "0000"
  | target address => addressText address
  | farTarget address => signedAddressText address
  | reference _ _ name => name

/-- The text with registers named by `nameRegister`. -/
def render (nameRegister : UInt16 → String) : Operand → String
  | register number => nameRegister number
  | operand => operand.text

end Operand

end Dalvik
