import Dalvik.Proofs.FieldLayout
import Dalvik.Proofs.FirstFault
import Dalvik.Proofs.Mnemonics

namespace Dalvik

open Reader

/-- The kind of a failure; there is none for a result. -/
def errorKind? {α : Type} : Except DecodeError α → Option ErrorKind
  | .ok _ => none
  | .error e => some e.kind

/-- The opcode that the byte at an offset stands for. -/
def opcodeAt? (code : List UInt8) (offset : Nat) : Option Opcode := code[offset]?.map Opcode.ofByte

/-- The bytes of an index into the constant pool, which follow the first code unit. -/
def Format.indexWidth : Format → Nat
  | f31c => 4
  | _ => 2

/-- The index that an instruction holds at an offset. -/
def Opcode.indexAt (op : Opcode) (code : List UInt8) (offset : Nat) : UInt32 :=
  UInt32.ofNat (littleEndian ((code.drop (offset + 2)).take op.format.indexWidth))

/-- No instruction starts at the offset, or not all of its bytes are there. -/
def IsCutAt (code : List UInt8) (offset : Nat) : Prop :=
  code.length ≤ offset ∨ ∃ op ∈ opcodeAt? code offset, code.length < offset + op.format.size

/-- The instruction at the offset is a call with more than five arguments. -/
def IsOverfullAt (code : List UInt8) (offset : Nat) : Prop :=
  ∃ op ∈ opcodeAt? code offset, op.format = .f35c ∧ ∃ b ∈ code[offset + 1]?, 5 < b.toNat / 16

/-- The instruction at the offset refers to an entry that the pool does not have. -/
def IsUnresolvedAt (pool : ConstantPool) (code : List UInt8) (offset : Nat) : Prop :=
  ∃ op ∈ opcodeAt? code offset,
    op.format.isReference = true ∧ pool.lookup op.reference (op.indexAt code offset) = none

instance (code : List UInt8) (offset : Nat) : Decidable (IsCutAt code offset) := inferInstanceAs (Decidable (_ ∨ _))

instance (code : List UInt8) (offset : Nat) : Decidable (IsOverfullAt code offset) :=
  inferInstanceAs (Decidable
    (∃ op ∈ opcodeAt? code offset, op.format = .f35c ∧ ∃ b ∈ code[offset + 1]?, 5 < b.toNat / 16))

instance (pool : ConstantPool) (code : List UInt8) (offset : Nat) : Decidable (IsUnresolvedAt pool code offset) :=
  inferInstanceAs (Decidable (∃ op ∈ opcodeAt? code offset, op.format.isReference = true ∧
    pool.lookup op.reference (op.indexAt code offset) = none))

namespace Reader

variable {α β : Type}

theorem run'_byte_bind (next : Nat → Reader α) (b : UInt8) (rest : List UInt8) :
    (byte >>= next).run' (b :: rest) = (next b.toNat).run' rest := by
  rw [byte, run'_field_bind, if_neg (by simp)]
  rfl

theorem run'_lift_bind (result : Except Fault β) (arrange : β → α) (code : List UInt8) :
    (liftM result >>= fun x => pure (arrange x) : Reader α).run' code = result.map arrange := by
  cases result <;> rfl

end Reader

set_option maxRecDepth 10000 in
/-- Every opcode whose instructions hold an index has a table to look it up in. -/
theorem Opcode.reference_ne_none {value : UInt8} (reference : (ofByte value).format.isReference = true) :
    (ofByte value).reference ≠ .none := by
  have tables : ∀ op ∈ defined, op.format.isReference = true → op.reference ≠ .none := by decide
  rcases ofByte_cases value with isDefined | isUnused
  · exact tables _ isDefined reference
  · rw [isUnused] at reference
    cases reference

namespace Opcode

variable {op : Opcode} {base : UInt32} {pool : ConstantPool} {first second : UInt8} {rest : List UInt8}

/-- The reference is looked up last, and in a call after the number of its arguments is checked. -/
theorem operands_reference (reference : op.format.isReference = true) (full : op.format.size ≤ rest.length + 2) :
    ∃ arrange : Operand → List Operand, op.operands (first :: second :: rest) base pool =
      if op.format = .f35c ∧ 5 < second.toNat / 16 then .error (.tooManyArguments op.mnemonic (second.toNat / 16))
      else
        (pool.resolve op.reference (UInt32.ofNat (littleEndian (rest.take op.format.indexWidth)))).map arrange := by
  unfold Opcode.operands readOperands
  cases format : op.format
  all_goals rw [format] at reference full
  case f35c =>
    simp only [Format.size, Format.units] at full
    simp only [secondByte_bind, run'_byte_bind]
    rw [run'_field_bind, if_neg (by omega)]
    obtain ⟨dc, fe, tail, registers⟩ : ∃ dc fe tail, rest.drop 2 = dc :: fe :: tail := by
      match bytes : rest.drop 2 with
      | [] | [_] =>
        have short := congrArg List.length bytes
        simp at short
        omega
      | dc :: fe :: tail => exact ⟨dc, fe, tail, rfl⟩
    rw [registers, run'_byte_bind, run'_byte_bind]
    by_cases overfull : 5 < second.toNat / 16
    · simp only [overfull, if_true, and_self]
      exact ⟨fun _ => [], rfl⟩
    · simp only [overfull, if_false, and_false]
      exact ⟨_, run'_lift_bind _ _ _⟩
  case f21c | f22c | f31c =>
    simp only [Format.size, Format.units] at full
    simp only [secondByte_bind, run'_byte_bind]
    rw [run'_field_bind, if_neg (by omega)]
    exact ⟨_, run'_lift_bind _ _ _⟩
  all_goals cases reference

theorem errorKind?_instruction (op : Opcode) (offset : Nat) (unit : List UInt8) (base : UInt32)
    (pool : ConstantPool) :
    errorKind? (op.instruction offset unit base pool) =
      match op.operands unit base pool with
      | .ok _ => none
      | .error fault => some fault.kind := by
  unfold Opcode.instruction
  cases op.operands unit base pool <;> rfl

end Opcode

theorem ConstantPool.resolve_of_table (pool : ConstantPool) {kind : ReferenceKind} (isTable : kind ≠ .none)
    (index : UInt32) :
    pool.resolve kind index =
      match pool.lookup kind index with
      | some name => .ok (.reference kind index name)
      | none => .error (.unresolvedIndex kind index) :=
  if_neg isTable

section Suffix

variable {code : List UInt8} {offset : Nat} {first second : UInt8} {rest : List UInt8}

theorem opcodeAt?_cons (suffix : code.drop offset = first :: rest) :
    opcodeAt? code offset = some (.ofByte first) := by
  rw [opcodeAt?, ← List.head?_drop, suffix]
  rfl

theorem isCutAt_cons_iff (suffix : code.drop offset = first :: rest) :
    IsCutAt code offset ↔ rest.length + 1 < (Opcode.ofByte first).format.size := by
  have whole := congrArg List.length suffix
  rw [List.length_drop, List.length_cons] at whole
  simp only [IsCutAt, opcodeAt?_cons suffix, Option.mem_some_iff, exists_eq_left']
  omega

theorem isOverfullAt_cons_iff (suffix : code.drop offset = first :: second :: rest) :
    IsOverfullAt code offset ↔ (Opcode.ofByte first).format = .f35c ∧ 5 < second.toNat / 16 := by
  have next : code[offset + 1]? = some second := by
    rw [← List.getElem?_drop, suffix]
    rfl
  simp only [IsOverfullAt, opcodeAt?_cons suffix, next, Option.mem_some_iff, exists_eq_left']

theorem isUnresolvedAt_cons_iff (suffix : code.drop offset = first :: second :: rest) (pool : ConstantPool) :
    IsUnresolvedAt pool code offset ↔ (Opcode.ofByte first).format.isReference = true ∧
      pool.lookup (Opcode.ofByte first).reference
        (UInt32.ofNat (littleEndian (rest.take (Opcode.ofByte first).format.indexWidth))) = none := by
  have behind : code.drop (offset + 2) = rest := by rw [← List.drop_drop, suffix]; rfl
  simp only [IsUnresolvedAt, opcodeAt?_cons suffix, Opcode.indexAt, behind, Option.mem_some_iff, exists_eq_left']

/-- With all bytes there, the number of arguments decides first and then the pool. -/
theorem errorKind?_operands (suffix : code.drop offset = first :: second :: rest)
    (full : (Opcode.ofByte first).format.size ≤ rest.length + 2) (base : UInt32) (pool : ConstantPool) :
    errorKind? ((Opcode.ofByte first).instruction offset (first :: second :: rest) base pool) =
      if IsOverfullAt code offset then some .malformedInstruction
      else if IsUnresolvedAt pool code offset then some .unresolvedPoolIndex
      else none := by
  rw [Opcode.errorKind?_instruction]
  simp only [isOverfullAt_cons_iff suffix, isUnresolvedAt_cons_iff suffix]
  by_cases reference : (Opcode.ofByte first).format.isReference = true
  · obtain ⟨arrange, result⟩ := Opcode.operands_reference reference full
    rw [result, ConstantPool.resolve_of_table pool (Opcode.reference_ne_none reference)]
    by_cases overfull : (Opcode.ofByte first).format = .f35c ∧ 5 < second.toNat / 16
    · rw [if_pos overfull, if_pos overfull]
      rfl
    · rw [if_neg overfull, if_neg overfull]
      cases pool.lookup (Opcode.ofByte first).reference
        (UInt32.ofNat (littleEndian (rest.take (Opcode.ofByte first).format.indexWidth))) with
      | none => rw [if_pos ⟨reference, rfl⟩]; rfl
      | some name => simp [Except.map]
  · have notCall : (Opcode.ofByte first).format ≠ .f35c := by
      intro call
      rw [call] at reference
      exact reference rfl
    rw [if_neg fun overfull => notCall overfull.1, if_neg fun unresolved => reference unresolved.1]
    cases result : (Opcode.ofByte first).operands (first :: second :: rest) base pool with
    | ok operands => rfl
    | error fault => exact absurd (Opcode.lateFault_of_full full result).2 reference

end Suffix

variable {code : List UInt8} {offset : Nat} {base : UInt32} {pool : ConstantPool}

theorem Opcode.instruction_take {op : Opcode} {unit : List UInt8} (full : op.format.size ≤ unit.length) :
    op.instruction offset (unit.take op.format.size) base pool = op.instruction offset unit base pool := by
  rw [Opcode.instruction, Opcode.instruction, operands_take full]

/-- Bytes are missing, which has an error of its own, or the operands decide. -/
theorem instructionAt_value_cases (code : List UInt8) (offset : Nat) (base : UInt32) (pool : ConstantPool) :
    (IsCutAt code offset ∧ ∃ fault, (instructionAt code offset base pool).value = .error ⟨fault, []⟩ ∧
      (fault = .noInstruction offset code.length ∨ ∃ op ∈ opcodeAt? code offset,
        fault = .truncatedInstruction op.mnemonic offset op.format.size (code.length - offset))) ∨
    ∃ first second rest, code.drop offset = first :: second :: rest ∧ ¬ IsCutAt code offset ∧
      (Opcode.ofByte first).format.size ≤ rest.length + 2 ∧ (instructionAt code offset base pool).value =
        (Opcode.ofByte first).instruction offset (first :: second :: rest) base pool := by
  unfold instructionAt
  cases suffix : code.drop offset with
  | nil => exact Or.inl ⟨Or.inl (List.drop_eq_nil_iff.mp suffix), _, rfl, Or.inl rfl⟩
  | cons first rest =>
    have cut := isCutAt_cons_iff suffix
    have available := congrArg List.length suffix
    rw [List.length_drop, List.length_cons] at available
    dsimp only
    rw [instructionFrom_value]
    by_cases short : rest.length + 1 < (Opcode.ofByte first).format.size
    · refine Or.inl ⟨cut.mpr short, _, if_pos short, Or.inr ⟨_, opcodeAt?_cons suffix, ?_⟩⟩
      rw [available]
    · have room := (Opcode.ofByte first).format.two_le_size
      cases rest with
      | nil => simp only [List.length_nil] at short; omega
      | cons second rest =>
        refine Or.inr ⟨first, second, rest, rfl, fun isCut => short (cut.mp isCut), Nat.not_lt.mp short, ?_⟩
        exact (if_neg short).trans (Opcode.instruction_take (Nat.not_lt.mp short))

theorem instructionAt_errorKind? (code : List UInt8) (offset : Nat) (base : UInt32) (pool : ConstantPool) :
    errorKind? (instructionAt code offset base pool).value =
      if IsCutAt code offset then some .truncatedBuffer
      else if IsOverfullAt code offset then some .malformedInstruction
      else if IsUnresolvedAt pool code offset then some .unresolvedPoolIndex
      else none := by
  rcases instructionAt_value_cases code offset base pool with ⟨cut, fault, value, own⟩ |
    ⟨first, second, rest, suffix, notCut, full, value⟩
  · rw [value, if_pos cut]
    rcases own with rfl | ⟨op, _, rfl⟩ <;> rfl
  · rw [value, if_neg notCut, errorKind?_operands suffix full]

theorem instructionAt_not_unreachable {e : DecodeError}
    (failed : (instructionAt code offset base pool).value = .error e) :
    e.kind ≠ .unreachableOpcode := by
  intro unreachable
  have kind := instructionAt_errorKind? code offset base pool
  rw [failed, errorKind?, unreachable] at kind
  split at kind
  · cases kind
  · split at kind
    · cases kind
    · split at kind <;> cases kind

theorem disassemble_not_unreachable {e : DecodeError} (failed : (disassemble code base pool).value = .error e) :
    e.kind ≠ .unreachableOpcode := by
  by_cases odd : code.length % 2 = 1
  · rw [disassemble_odd base pool odd] at failed
    cases failed
    exact ErrorKind.noConfusion
  · obtain ⟨_, stop, _, _, fault⟩ := (disassemble_error_iff (by omega)).mp failed
    rcases itemAt_error_iff.mp fault with ⟨_, cut, rfl, _⟩ | ⟨_, failed⟩
    · rw [DecodeError.kind, DecodeError.inContext, scanPayload_error_kind cut]
      exact ErrorKind.noConfusion
    · exact instructionAt_not_unreachable failed

theorem head?_toList_append {s t : String} {c : Char} (head : s.toList.head? = some c) :
    (s ++ t).toList.head? = some c := by
  rw [String.toList_append, List.head?_append, head]
  rfl

theorem Fault.head?_noInstruction (offset length : Nat) :
    (noInstruction offset length).message.toList.head? = some 'N' := by
  have start : "No instruction at 0x".toList.head? = some 'N' := by decide
  exact head?_toList_append (head?_toList_append (head?_toList_append (head?_toList_append start)))

theorem Fault.head?_truncatedInstruction (mnemonic : String) (offset need available : Nat) :
    (truncatedInstruction mnemonic offset need available).message.toList.head? = some 'T' := by
  have start : "Truncated ".toList.head? = some 'T' := by decide
  exact head?_toList_append (head?_toList_append (head?_toList_append (head?_toList_append (head?_toList_append
    (head?_toList_append (head?_toList_append start))))))

theorem not_endOfCode_text {text : String} {c : Char} (head : text.toList.head? = some c) (apart : c ≠ 'U') :
    ¬ "Unexpected end of code".toList <+: text.toList := by
  have own : "Unexpected end of code".toList.head? = some 'U' := by decide
  rintro ⟨tail, same⟩
  rw [← same, List.head?_append, own] at head
  exact apart (Option.some.inj head).symm

/-- How decoding one instruction ends. Missing bytes come before all else and are reported with their number; then
the argument count of a call is checked, then the entry of the pool, and nothing else can fail. That an opcode
with an index has no table never happens, neither here nor in a whole method. -/
theorem instructionAt_error_kinds (code : List UInt8) (offset : Nat) (base : UInt32) (pool : ConstantPool) :
    errorKind? (instructionAt code offset base pool).value =
      (if IsCutAt code offset then some .truncatedBuffer
      else if IsOverfullAt code offset then some .malformedInstruction
      else if IsUnresolvedAt pool code offset then some .unresolvedPoolIndex
      else none) ∧
    (∀ e, (instructionAt code offset base pool).value = .error e → e.kind = .truncatedBuffer →
      (e.fault.message = "No instruction at 0x" ++ hex offset ++ ", code is " ++ decimal code.length ++ " bytes" ∨
        ∃ op ∈ opcodeAt? code offset, e.fault.message = "Truncated " ++ op.mnemonic ++ " at 0x" ++ hex offset ++
          ": need " ++ decimal op.format.size ++ " bytes, have " ++ decimal (code.length - offset)) ∧
      ¬ "Unexpected end of code".toList <+: e.fault.message.toList) ∧
    (∀ e, (instructionAt code offset base pool).value = .error e → e.kind ≠ .unreachableOpcode) ∧
    ∀ e, (disassemble code base pool).value = .error e → e.kind ≠ .unreachableOpcode := by
  refine ⟨instructionAt_errorKind? code offset base pool, fun e failed isCut => ?_,
    fun _ => instructionAt_not_unreachable, fun _ => disassemble_not_unreachable⟩
  rcases instructionAt_value_cases code offset base pool with ⟨cut, fault, value, own⟩ |
    ⟨first, second, rest, suffix, notCut, full, value⟩
  · rw [value] at failed
    cases failed
    rcases own with rfl | ⟨op, opcode, rfl⟩
    · exact ⟨Or.inl rfl, not_endOfCode_text (Fault.head?_noInstruction _ _) (by decide)⟩
    · exact ⟨Or.inr ⟨op, opcode, rfl⟩, not_endOfCode_text (Fault.head?_truncatedInstruction _ _ _ _) (by decide)⟩
  · have kind := instructionAt_errorKind? code offset base pool
    rw [failed, errorKind?, isCut, if_neg notCut] at kind
    split at kind
    · cases kind
    · split at kind <;> cases kind

/-- A call with six arguments and an unknown method: as a whole, without its last byte, with five arguments, and
with the method known. -/
theorem instructionAt_error_kinds_call :
    let empty : ConstantPool := ⟨fun _ => none, fun _ => none, fun _ => none, fun _ => none⟩
    errorKind? (instructionAt [0x6e, 0x60, 9, 0, 0, 0] 0 0 empty).value = some .malformedInstruction ∧
    errorKind? (instructionAt [0x6e, 0x60, 9, 0, 0] 0 0 empty).value = some .truncatedBuffer ∧
    errorKind? (instructionAt [0x6e, 0x50, 9, 0, 0, 0] 0 0 empty).value = some .unresolvedPoolIndex ∧
    errorKind? (instructionAt [0x6e, 0x50, 9, 0, 0, 0] 0 0 .placeholder).value = none := by
  intro empty
  refine ⟨?_, ?_, ?_, ?_⟩
  · rw [(instructionAt_error_kinds _ _ _ _).1]
    decide
  · rw [(instructionAt_error_kinds _ _ _ _).1]
    decide
  · rw [(instructionAt_error_kinds _ _ _ _).1]
    decide
  · rw [(instructionAt_error_kinds _ _ _ _).1]
    decide

end Dalvik
