import Dalvik.Proofs.OperandLegality

namespace Dalvik

/-- What sort of operand it is, apart from its value. -/
inductive OperandForm where
  | register | literal | target | farTarget
  | high (wide : Bool)
  | reference (kind : ReferenceKind)
  deriving DecidableEq, Repr

namespace Operand

def form : Operand → OperandForm
  | register _ => .register
  | literal _ => .literal
  | high _ wide => .high wide
  | target _ => .target
  | farTarget _ => .farTarget
  | reference kind _ _ => .reference kind

/-- A reference has the name that the pool gives it. -/
def NamedBy (pool : ConstantPool) : Operand → Prop
  | reference kind index name => pool.lookup kind index = some name
  | _ => True

end Operand

namespace Opcode

/-- The forms of the operands of an opcode. The number of operands has a say only where a call lists its
arguments. -/
def forms (op : Opcode) (count : Nat) : List OperandForm :=
  match op.format with
  | .f10x | .f3rc => []
  | .f10t | .f20t => [.target]
  | .f30t => [.farTarget]
  | .f11x => [.register]
  | .f11n | .f21s | .f31i | .f51l => [.register, .literal]
  | .f12x | .f22x | .f32x => [.register, .register]
  | .f21c | .f31c => [.register, .reference op.reference]
  | .f21h => [.register, .high (op.value = constWideHigh16)]
  | .f21t | .f31t => [.register, .target]
  | .f22b | .f22s => [.register, .register, .literal]
  | .f22c => [.register, .register, .reference op.reference]
  | .f22t => [.register, .register, .target]
  | .f23x => [.register, .register, .register]
  | .f35c => List.replicate (count - 1) .register ++ [.reference op.reference]

variable {op : Opcode} {base : UInt32} {pool : ConstantPool} {operands : List Operand}

/-- The format of an opcode tells the operands apart. -/
theorem Legal.map_form (legal : op.Legal base pool operands) :
    operands.map Operand.form = op.forms operands.length := by
  unfold Legal at legal
  unfold forms
  cases format : op.format
  all_goals rw [format] at legal
  case f35c =>
    obtain ⟨registers, kind, index, name, rfl, _, _, rfl, _⟩ := legal
    have isRegister : Operand.form ∘ Operand.register = Function.const UInt16 OperandForm.register := rfl
    simp only [List.map_append, List.map_map, isRegister, List.map_const, List.length_append, List.length_map,
      List.length_singleton, Nat.add_sub_cancel]
    rfl
  case f10x | f3rc =>
    rw [legal]
    rfl
  case f10t | f11x | f20t | f30t =>
    obtain ⟨a, rfl, _⟩ := legal
    rfl
  case f32x =>
    obtain ⟨a, b, rfl⟩ := legal
    rfl
  case f11n | f12x | f21s | f21t | f22x | f31i | f31t | f51l =>
    obtain ⟨a, b, rfl, _⟩ := legal
    rfl
  case f21h =>
    obtain ⟨a, bits, wide, rfl, _, rfl⟩ := legal
    rfl
  case f22b | f22s | f22t | f23x =>
    obtain ⟨a, b, c, rfl, _⟩ := legal
    rfl
  case f21c | f31c =>
    obtain ⟨a, kind, index, name, rfl, _, rfl, _⟩ := legal
    rfl
  case f22c =>
    obtain ⟨a, b, kind, index, name, rfl, _, _, rfl, _⟩ := legal
    rfl

theorem Legal.namedBy (legal : op.Legal base pool operands) : ∀ operand ∈ operands, operand.NamedBy pool := by
  unfold Legal at legal
  cases format : op.format
  all_goals rw [format] at legal
  case f21c | f31c =>
    obtain ⟨a, kind, index, name, rfl, _, _, _, found⟩ := legal
    exact List.forall_mem_cons.mpr ⟨trivial, List.forall_mem_singleton.mpr found⟩
  case f22c =>
    obtain ⟨a, b, kind, index, name, rfl, _, _, _, _, found⟩ := legal
    exact List.forall_mem_cons.mpr ⟨trivial,
      List.forall_mem_cons.mpr ⟨trivial, List.forall_mem_singleton.mpr found⟩⟩
  case f35c =>
    obtain ⟨registers, kind, index, name, rfl, _, _, _, _, found⟩ := legal
    refine List.forall_mem_append.mpr ⟨fun operand member => ?_, List.forall_mem_singleton.mpr found⟩
    obtain ⟨register, _, rfl⟩ := List.mem_map.mp member
    exact trivial
  all_goals grind [Operand.NamedBy]

end Opcode

end Dalvik
