import Dalvik.Operand.Decode

namespace Dalvik

/-- The number is in the range of a field of `width` bytes in two's complement. -/
def FitsSigned (width : Nat) (v : Int) : Prop := -fieldRange width ≤ 2 * v ∧ 2 * v < fieldRange width

instance (width : Nat) (v : Int) : Decidable (FitsSigned width v) := inferInstanceAs (Decidable (_ ∧ _))

/-- A field of `width` bytes in two's complement. -/
def signedBytes (width : Nat) (v : Int) : List UInt8 := littleEndianBytes width (v % fieldRange width).toNat

/-- What has to be added to the base to reach the address. -/
def displacementTo (base : UInt32) (address : Int64) : Int := address.toInt - base.toNat

namespace Opcode

/-- The reference names the entry of the opcode's table at an index of `width` bytes. -/
def Names (op : Opcode) (pool : ConstantPool) (width : Nat) (kind : ReferenceKind) (index : UInt32)
    (name : String) : Prop :=
  kind = op.reference ∧ index.toNat < fieldRange width ∧ pool.lookup kind index = some name

/-- The operands fit in the fields of the opcode's format, and a reference has the name that the pool gives it. -/
def Legal (op : Opcode) (base : UInt32) (pool : ConstantPool) (operands : List Operand) : Prop :=
  match op.format with
  | .f10x | .f3rc => operands = []
  | .f10t => ∃ t, operands = [.target t] ∧ FitsSigned 1 (displacementTo base t)
  | .f11n => ∃ a v, operands = [.register a, .literal v] ∧ a.toNat < 16 ∧ -8 ≤ v.toInt ∧ v.toInt < 8
  | .f11x => ∃ a, operands = [.register a] ∧ a.toNat < 256
  | .f12x => ∃ a b, operands = [.register a, .register b] ∧ a.toNat < 16 ∧ b.toNat < 16
  | .f20t => ∃ t, operands = [.target t] ∧ FitsSigned 2 (displacementTo base t)
  | .f21c => ∃ a kind index name, operands = [.register a, .reference kind index name] ∧
    a.toNat < 256 ∧ op.Names pool 2 kind index name
  | .f21h => ∃ a bits wide, operands = [.register a, .high bits wide] ∧
    a.toNat < 256 ∧ wide = decide (op.value = constWideHigh16)
  | .f21s => ∃ a v, operands = [.register a, .literal v] ∧ a.toNat < 256 ∧ FitsSigned 2 v.toInt
  | .f21t => ∃ a t, operands = [.register a, .target t] ∧ a.toNat < 256 ∧ FitsSigned 2 (displacementTo base t)
  | .f22b => ∃ a b v, operands = [.register a, .register b, .literal v] ∧
    a.toNat < 256 ∧ b.toNat < 256 ∧ FitsSigned 1 v.toInt
  | .f22c => ∃ a b kind index name, operands = [.register a, .register b, .reference kind index name] ∧
    a.toNat < 16 ∧ b.toNat < 16 ∧ op.Names pool 2 kind index name
  | .f22s => ∃ a b v, operands = [.register a, .register b, .literal v] ∧
    a.toNat < 16 ∧ b.toNat < 16 ∧ FitsSigned 2 v.toInt
  | .f22t => ∃ a b t, operands = [.register a, .register b, .target t] ∧
    a.toNat < 16 ∧ b.toNat < 16 ∧ FitsSigned 2 (displacementTo base t)
  | .f22x => ∃ a b, operands = [.register a, .register b] ∧ a.toNat < 256
  | .f23x => ∃ a b c, operands = [.register a, .register b, .register c] ∧
    a.toNat < 256 ∧ b.toNat < 256 ∧ c.toNat < 256
  | .f30t => ∃ t, operands = [.farTarget t] ∧ FitsSigned 4 (displacementTo base t)
  | .f31c => ∃ a kind index name, operands = [.register a, .reference kind index name] ∧
    a.toNat < 256 ∧ op.Names pool 4 kind index name
  | .f31i => ∃ a v, operands = [.register a, .literal v] ∧ a.toNat < 256 ∧ FitsSigned 4 v.toInt
  | .f31t => ∃ a t, operands = [.register a, .target t] ∧ a.toNat < 256 ∧ FitsSigned 4 (displacementTo base t)
  | .f32x => ∃ a b, operands = [.register a, .register b]
  | .f35c => ∃ (registers : List UInt16) (kind : ReferenceKind) (index : UInt32) (name : String),
    operands = registers.map .register ++ [.reference kind index name] ∧
      registers.length ≤ 5 ∧ (∀ r ∈ registers, r.toNat < 16) ∧ op.Names pool 2 kind index name
  | .f51l => ∃ a v, operands = [.register a, .literal v] ∧ a.toNat < 256

/-- The bytes before the second code unit. -/
def firstUnit (op : Opcode) (second : Nat) : List UInt8 := [op.value, UInt8.ofNat second]

/-- The bytes of an instruction with an argument list: the count and the fifth register share the second byte, and
registers that are not there are zero. -/
def assembleCall (op : Opcode) (registers : List UInt16) (index : UInt32) : List UInt8 :=
  let r (n : Nat) : Nat := (registers.getD n 0).toNat
  op.firstUnit (r 4 + 16 * registers.length) ++ littleEndianBytes 2 index.toNat ++
    [UInt8.ofNat (r 0 + 16 * r 1), UInt8.ofNat (r 2 + 16 * r 3)]

/-- The bytes of an instruction, with zeros where its format ignores them. Operands that are not legal give nothing
of use. -/
def assemble (op : Opcode) (base : UInt32) (operands : List Operand) : List UInt8 :=
  match op.format, operands with
  | .f10t, [.target a] => op.value :: signedBytes 1 (displacementTo base a)
  | .f11n, [.register a, .literal v] => op.firstUnit (a.toNat + 16 * (v.toInt % 16).toNat)
  | .f11x, [.register a] => op.firstUnit a.toNat
  | .f12x, [.register a, .register b] => op.firstUnit (a.toNat + 16 * b.toNat)
  | .f20t, [.target a] => op.firstUnit 0 ++ signedBytes 2 (displacementTo base a)
  | .f21c, [.register a, .reference _ index _] => op.firstUnit a.toNat ++ littleEndianBytes 2 index.toNat
  | .f21h, [.register a, .high bits _] => op.firstUnit a.toNat ++ littleEndianBytes 2 bits.toNat
  | .f21s, [.register a, .literal v] => op.firstUnit a.toNat ++ signedBytes 2 v.toInt
  | .f21t, [.register a, .target t] => op.firstUnit a.toNat ++ signedBytes 2 (displacementTo base t)
  | .f22b, [.register a, .register b, .literal v] =>
    op.firstUnit a.toNat ++ UInt8.ofNat b.toNat :: signedBytes 1 v.toInt
  | .f22c, [.register a, .register b, .reference _ index _] =>
    op.firstUnit (a.toNat + 16 * b.toNat) ++ littleEndianBytes 2 index.toNat
  | .f22s, [.register a, .register b, .literal v] =>
    op.firstUnit (a.toNat + 16 * b.toNat) ++ signedBytes 2 v.toInt
  | .f22t, [.register a, .register b, .target t] =>
    op.firstUnit (a.toNat + 16 * b.toNat) ++ signedBytes 2 (displacementTo base t)
  | .f22x, [.register a, .register b] => op.firstUnit a.toNat ++ littleEndianBytes 2 b.toNat
  | .f23x, [.register a, .register b, .register c] =>
    op.firstUnit a.toNat ++ [UInt8.ofNat b.toNat, UInt8.ofNat c.toNat]
  | .f30t, [.farTarget a] => op.firstUnit 0 ++ signedBytes 4 (displacementTo base a)
  | .f31c, [.register a, .reference _ index _] => op.firstUnit a.toNat ++ littleEndianBytes 4 index.toNat
  | .f31i, [.register a, .literal v] => op.firstUnit a.toNat ++ signedBytes 4 v.toInt
  | .f31t, [.register a, .target t] => op.firstUnit a.toNat ++ signedBytes 4 (displacementTo base t)
  | .f32x, [.register a, .register b] =>
    op.firstUnit 0 ++ littleEndianBytes 2 a.toNat ++ littleEndianBytes 2 b.toNat
  | .f35c, operands =>
    match operands.getLast? with
    | some (.reference _ index _) => op.assembleCall (operands.filterMap Operand.register?) index
    | _ => []
  | .f3rc, _ => op.firstUnit 0 ++ [0, 0, 0, 0]
  | .f51l, [.register a, .literal v] => op.firstUnit a.toNat ++ signedBytes 8 v.toInt
  | .f10x, _ => op.firstUnit 0
  | _, _ => []

end Opcode

end Dalvik
