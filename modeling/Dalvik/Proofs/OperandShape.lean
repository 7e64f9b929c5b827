import Dalvik.Proofs.OperandForms

namespace Dalvik

theorem Format.isReference_iff {f : Format} : f.isReference = true ↔ f ∈ [.f21c, .f22c, .f31c, .f35c] := by
  cases f <;> decide

/-- Where at most one member is counted, the number tells whether there is one. -/
theorem exists_mem_iff_of_countP {α : Type} {p : α → Bool} {members : List α} {present : Bool}
    (count : members.countP p = present.toNat) : (∃ a ∈ members, p a) ↔ present = true := by
  rw [← List.countP_pos_iff, count]
  cases present <;> decide

namespace OperandForm

def isTarget : OperandForm → Bool
  | target | farTarget => true
  | _ => false

def isReference : OperandForm → Bool
  | reference _ => true
  | _ => false

end OperandForm

namespace Operand

theorem isTarget_form (operand : Operand) : operand.form.isTarget = operand.target?.isSome := by
  cases operand <;> rfl

theorem isReference_form (operand : Operand) : operand.form.isReference = operand.referenceName?.isSome := by
  cases operand <;> rfl

theorem register?_of_target {operand : Operand} (isTarget : operand.target?.isSome) : operand.register? = none := by
  cases operand with
  | register => cases isTarget
  | _ => rfl

theorem eq_register_of_form {operand : Operand} (isRegister : operand.form = .register) :
    ∃ number, operand = .register number := by
  cases operand <;> cases isRegister
  exact ⟨_, rfl⟩

theorem exists_reference_iff {operands : List Operand} :
    (∃ kind index name, reference kind index name ∈ operands) ↔
      ∃ operand ∈ operands, operand.referenceName?.isSome := by
  constructor
  · rintro ⟨kind, index, name, member⟩
    exact ⟨_, member, rfl⟩
  · rintro ⟨operand, member, isReference⟩
    cases operand <;> cases isReference
    exact ⟨_, _, _, member⟩

end Operand

namespace Opcode

theorem register_before_last_form (op : Opcode) (count : Nat) :
    ∀ form ∈ (op.forms count).dropLast, form = .register := by
  unfold forms
  cases op.format
  -- Only a call leaves the number of its registers open; the other lists are written out.
  case f35c =>
    rw [List.dropLast_concat]
    exact fun form => List.eq_of_mem_replicate
  all_goals simp

/-- A branch format has one target, and the others have none. -/
theorem countP_isTarget_forms (op : Opcode) (count : Nat) :
    (op.forms count).countP OperandForm.isTarget = op.format.isBranch.toNat := by
  unfold forms
  cases op.format
  case f35c => simp [List.countP_replicate, OperandForm.isTarget, Format.isBranch]
  all_goals rfl

/-- A format with an index has one reference, and the others have none. -/
theorem countP_isReference_forms (op : Opcode) (count : Nat) :
    (op.forms count).countP OperandForm.isReference = op.format.isReference.toNat := by
  unfold forms
  cases op.format
  case f35c => simp [List.countP_replicate, OperandForm.isReference, Format.isReference]
  all_goals rfl

theorem kind_of_mem_forms (op : Opcode) (count : Nat) :
    ∀ kind, .reference kind ∈ op.forms count → kind = op.reference := by
  unfold forms
  cases op.format
  case f35c =>
    intro kind member
    rcases List.mem_append.mp member with register | reference
    · cases List.eq_of_mem_replicate register
    · cases List.mem_singleton.mp reference
      rfl
  all_goals simp

variable {op : Opcode} {base : UInt32} {pool : ConstantPool} {operands : List Operand}

theorem Legal.register_before_last (legal : op.Legal base pool operands) :
    ∀ operand ∈ operands.dropLast, ∃ number, operand = .register number := by
  intro operand member
  have inForms : operand.form ∈ (op.forms operands.length).dropLast := by
    rw [← legal.map_form, ← List.map_dropLast]
    exact List.mem_map_of_mem member
  exact Operand.eq_register_of_form (op.register_before_last_form _ _ inForms)

/-- An operand that is no register is the last one. -/
theorem Legal.getLast?_of_mem (legal : op.Legal base pool operands) {operand : Operand}
    (member : operand ∈ operands) (other : operand.register? = none) : operands.getLast? = some operand := by
  rcases List.eq_nil_or_concat operands with rfl | ⟨front, last, rfl⟩
  · cases member
  · rw [List.concat_eq_append] at legal member ⊢
    have registers := legal.register_before_last
    rw [List.dropLast_concat] at registers
    rcases List.mem_append.mp member with before | isLast
    · obtain ⟨number, rfl⟩ := registers operand before
      cases other
    · rw [List.mem_singleton.mp isLast, List.getLast?_concat]

theorem Legal.countP_form (legal : op.Legal base pool operands) (p : OperandForm → Bool) :
    operands.countP (fun operand => p operand.form) = (op.forms operands.length).countP p := by
  rw [← legal.map_form, List.countP_map]
  rfl

theorem Legal.countP_target (legal : op.Legal base pool operands) :
    operands.countP (·.target?.isSome) = op.format.isBranch.toNat := by
  simp only [← Operand.isTarget_form]
  rw [legal.countP_form, countP_isTarget_forms]

theorem Legal.countP_reference (legal : op.Legal base pool operands) :
    operands.countP (·.referenceName?.isSome) = op.format.isReference.toNat := by
  simp only [← Operand.isReference_form]
  rw [legal.countP_form, countP_isReference_forms]

/-- A reference is to the table of the opcode, and the pool has its name there. -/
theorem Legal.reference (legal : op.Legal base pool operands) {kind : ReferenceKind} {index : UInt32}
    {name : String} (member : .reference kind index name ∈ operands) :
    kind = op.reference ∧ op.reference ≠ .none ∧ pool.lookup op.reference index = some name := by
  have inForms : .reference kind ∈ op.forms operands.length := by
    rw [← legal.map_form]
    exact List.mem_map_of_mem member
  obtain rfl := op.kind_of_mem_forms _ kind inForms
  have named : pool.lookup op.reference index = some name := legal.namedBy _ member
  refine ⟨rfl, fun noTable => ?_, named⟩
  rw [noTable] at named
  cases named

/-- What the format of an opcode says about its operands holds of all operands that are read, whatever the opcode,
the bytes and the pool. -/
theorem operands_match_format {unit : List UInt8} (read : op.operands unit base pool = .ok operands) :
    ((∃ operand ∈ operands, operand.target?.isSome) ↔ op.format.isBranch = true) ∧
    (op.format.isBranch = true → operands.countP (·.target?.isSome) = 1 ∧
      ∃ operand, operands.getLast? = some operand ∧ operand.target?.isSome) ∧
    ((∃ kind index name, .reference kind index name ∈ operands) ↔ op.format ∈ [.f21c, .f22c, .f31c, .f35c]) ∧
    (op.format ∈ [.f21c, .f22c, .f31c, .f35c] → operands.countP (·.referenceName?.isSome) = 1 ∧
      op.reference ≠ .none ∧ ∃ index name, operands.getLast? = some (.reference op.reference index name) ∧
        pool.lookup op.reference index = some name) ∧
    ∀ operand ∈ operands.dropLast, ∃ number, operand = .register number := by
  have legal := operands_legal read
  have targets := exists_mem_iff_of_countP legal.countP_target
  have references := exists_mem_iff_of_countP legal.countP_reference
  rw [← Operand.exists_reference_iff] at references
  refine ⟨targets, fun branch => ?_, references.trans Format.isReference_iff, fun reference => ?_,
    legal.register_before_last⟩
  · obtain ⟨operand, member, isTarget⟩ := targets.mpr branch
    exact ⟨legal.countP_target.trans (congrArg Bool.toNat branch), operand,
      legal.getLast?_of_mem member (Operand.register?_of_target isTarget), isTarget⟩
  · have indexed := Format.isReference_iff.mpr reference
    obtain ⟨kind, index, name, member⟩ := references.mpr indexed
    obtain ⟨rfl, table, named⟩ := legal.reference member
    exact ⟨legal.countP_reference.trans (congrArg Bool.toNat indexed), table, index, name,
      legal.getLast?_of_mem member rfl, named⟩

/-- A conditional branch, and a call with five arguments by an opcode that is in no table. -/
theorem operands_match_format_samples :
    let call : Opcode := ⟨0xff, "call", .f35c, .type, {}⟩
    (∃ operands, (ofByte 0x32).operands [0x32, 0x21, 0xfe, 0xff] 0x10000 .placeholder = .ok operands ∧
      operands.countP (·.target?.isSome) = 1 ∧
      ∃ operand, operands.getLast? = some operand ∧ operand.target?.isSome) ∧
    ∃ operands, call.operands [0, 0x55, 7, 0, 0x21, 0x43] 0 .placeholder = .ok operands ∧
      operands.countP (·.referenceName?.isSome) = 1 ∧
      ∃ index name, operands.getLast? = some (.reference .type index name) ∧
        ConstantPool.placeholder.lookup .type index = some name := by
  intro call
  have branch : (ofByte 0x32).operands [0x32, 0x21, 0xfe, 0xff] 0x10000 .placeholder =
      .ok [.register 1, .register 2, .target 0xfffe] := rfl
  have called : call.operands [0, 0x55, 7, 0, 0x21, 0x43] 0 .placeholder =
      .ok [.register 1, .register 2, .register 3, .register 4, .register 5,
        .reference .type 7 (ConstantPool.placeholderName .type 7)] := rfl
  obtain ⟨_, target, _⟩ := operands_match_format branch
  obtain ⟨_, _, _, reference, _⟩ := operands_match_format called
  obtain ⟨count, _, last⟩ := reference (by decide)
  exact ⟨⟨_, branch, target rfl⟩, _, called, count, last⟩

end Opcode

end Dalvik
