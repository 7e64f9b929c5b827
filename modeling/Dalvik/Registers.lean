import Dalvik.Operand.Basic

namespace Dalvik

/-- The registers of a method, of which the last `insSize` hold its parameters. -/
structure Registers where
  registersSize : UInt16
  insSize : UInt16
  deriving DecidableEq, Repr

namespace Registers

/-- Number of the first parameter register. All are parameters if there are more parameters than registers. -/
def parameterBase (r : Registers) : Nat := r.registersSize.toNat - r.insSize.toNat

def name (r : Registers) (number : UInt16) : String :=
  if r.parameterBase ≤ number.toNat then "p" ++ decimal (number.toNat - r.parameterBase)
  else Operand.registerText number

/-- Without knowledge of the parameters every register is a plain one. -/
def name? : Option Registers → UInt16 → String
  | none => Operand.registerText
  | some r => r.name

end Registers

end Dalvik
