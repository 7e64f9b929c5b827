import Mathlib.Algebra.Ring.Nat
import Dalvik.Proofs.OperandLegality

namespace Dalvik

/-- The widths in bytes of the fields that are read for a format, from the opcode byte on. -/
def Format.fieldWidths : Format → List Nat
  | f10x | f3rc => []
  | f10t | f11n | f11x | f12x => [1, 1]
  | f20t | f21c | f21h | f21s | f21t | f22c | f22s | f22t | f22x => [1, 1, 2]
  | f22b | f23x => [1, 1, 1, 1]
  | f30t | f31c | f31i | f31t => [1, 1, 4]
  | f32x => [1, 1, 2, 2]
  | f35c => [1, 1, 2, 1, 1]
  | f51l => [1, 1, 8]

/-- The bytes of the fields that fit in `length` bytes as a whole, up to the first one that does not. -/
def fittedBytes : (widths : List Nat) → (length : Nat) → Nat
  | [], _ => 0
  | width :: widths, length => if length < width then 0 else width + fittedBytes widths (length - width)

namespace Reader

variable {α β : Type}

/-- The reader takes fields of these widths, one after the other and whatever they hold. What it makes of them may
be one of the faults. -/
inductive HasLayout (faults : Fault → Prop) : List Nat → Reader α → Prop
  | done {result : Except Fault α} :
      (∀ fault, result = .error fault → faults fault) → HasLayout faults [] (liftM result)
  | field {width : Nat} {widths : List Nat} {next : Nat → Reader α} : (∀ n, HasLayout faults widths (next n)) →
      HasLayout faults (width :: widths) (field width >>= next)

@[simp] theorem run'_lift (result : Except Fault α) (code : List UInt8) :
    (liftM result : Reader α).run' code = result := by
  cases result <;> rfl

namespace HasLayout

variable {faults : Fault → Prop} {widths : List Nat} {reader : Reader α} {code : List UInt8}

theorem pure (value : α) : HasLayout faults [] (Pure.pure value) := by
  have layout : HasLayout faults [] (liftM (Except.ok value : Except Fault α)) :=
    done fun _ failed => by cases failed
  exact layout

theorem throw {fault : Fault} (allowed : faults fault) : HasLayout faults [] (throw fault : Reader α) := by
  have layout : HasLayout faults [] (liftM (Except.error fault : Except Fault α)) := done fun _ failed => by
    cases failed
    exact allowed
  exact layout

theorem lift_bind {result : Except Fault β} (allowed : ∀ fault, result = .error fault → faults fault)
    (arrange : β → α) : HasLayout faults [] (liftM result >>= fun x => Pure.pure (arrange x)) := by
  cases result with
  | error fault => exact throw (allowed fault rfl)
  | ok value => exact pure (arrange value)

theorem signed {width : Nat} {next : Int → Reader α} (later : ∀ v, HasLayout faults widths (next v)) :
    HasLayout faults (width :: widths) (signedField width >>= next) := by
  rw [signedField, bind_assoc]
  simp only [pure_bind]
  exact field fun n => later _

/-- A field that does not fit is missed where it starts. -/
theorem run'_short (layout : HasLayout faults widths reader) (short : code.length < widths.sum) :
    reader.run' code = .error (.endOfCode (code.length - fittedBytes widths code.length)) := by
  induction layout generalizing code with
  | done => simp at short
  | @field width widths next _ ih =>
    rw [run'_field_bind, fittedBytes]
    by_cases missing : code.length < width
    · rw [if_pos missing, if_pos missing, Nat.sub_zero]
    · have rest : (code.drop width).length < widths.sum := by
        rw [List.sum_cons] at short
        rw [List.length_drop]
        omega
      rw [if_neg missing, if_neg missing, ih _ rest, List.length_drop, Nat.sub_sub]

theorem fault_of_full (layout : HasLayout faults widths reader) (full : widths.sum ≤ code.length) {fault : Fault}
    (failed : reader.run' code = .error fault) : faults fault := by
  induction layout generalizing code with
  | done allowed =>
    rw [run'_lift] at failed
    exact allowed fault failed
  | @field width widths next _ ih =>
    rw [List.sum_cons] at full
    rw [run'_field_bind, if_neg (by omega)] at failed
    exact ih _ (by rw [List.length_drop]; omega) failed

/-- Only the fields are looked at. -/
theorem run'_take (layout : HasLayout faults widths reader) (full : widths.sum ≤ code.length) :
    reader.run' (code.take widths.sum) = reader.run' code := by
  induction layout generalizing code with
  | done => rw [run'_lift, run'_lift]
  | @field width widths next _ ih =>
    rw [List.sum_cons] at full ⊢
    have own : (code.take (width + widths.sum)).take width = code.take width := by
      rw [List.take_take, Nat.min_eq_left (Nat.le_add_right _ _)]
    have rest : (code.take (width + widths.sum)).drop width = (code.drop width).take widths.sum := by
      rw [List.drop_take, Nat.add_sub_cancel_left]
    rw [run'_field_bind, run'_field_bind, List.length_take_of_le full, if_neg (by omega), if_neg (by omega), own,
      rest]
    exact ih _ (by rw [List.length_drop]; omega)

end HasLayout

theorem secondByte_bind (next : Nat → Reader α) : secondByte >>= next = byte >>= fun _ => byte >>= next :=
  bind_assoc byte (fun _ => byte) next

end Reader

open Reader

namespace Opcode

/-- A fault that is found only when all bytes of the instruction are there. -/
def LateFault (op : Opcode) (fault : Fault) : Prop := fault.kind ≠ .truncatedBuffer ∧ op.format.isReference = true

theorem lateFault_resolve (op : Opcode) (reference : op.format.isReference = true) (pool : ConstantPool)
    (kind : ReferenceKind) (index : UInt32) (fault : Fault) (failed : pool.resolve kind index = .error fault) :
    op.LateFault fault := by
  refine ⟨?_, reference⟩
  unfold ConstantPool.resolve at failed
  split at failed
  · cases failed
    exact ErrorKind.noConfusion
  · split at failed
    · cases failed
    · cases failed
      exact ErrorKind.noConfusion

/-- The opcode byte is read and passed over, and the other fields follow it. -/
theorem readOperands_layout (op : Opcode) (base : UInt32) (pool : ConstantPool)
    (reads : op.format ≠ .f10x ∧ op.format ≠ .f3rc) :
    ∃ widths later, op.format.fieldWidths = 1 :: widths ∧ op.readOperands base pool = (byte >>= fun _ => later) ∧
      HasLayout op.LateFault widths later := by
  have late := op.lateFault_resolve
  unfold readOperands
  cases format : op.format
  all_goals rw [format] at reads late
  case f10x | f3rc => simp at reads
  all_goals dsimp only
  case f10t => exact ⟨_, _, rfl, rfl, .signed fun _ => .pure _⟩
  case f11n | f11x | f12x => exact ⟨_, _, rfl, secondByte_bind _, .field fun _ => .pure _⟩
  case f20t | f21s | f21t | f22s | f22t | f30t | f31i | f31t | f51l =>
    exact ⟨_, _, rfl, secondByte_bind _, .field fun _ => .signed fun _ => .pure _⟩
  case f21h | f22x => exact ⟨_, _, rfl, secondByte_bind _, .field fun _ => .field fun _ => .pure _⟩
  case f21c | f22c | f31c =>
    exact ⟨_, _, rfl, secondByte_bind _, .field fun _ => .field fun _ => .lift_bind (late rfl pool _ _) _⟩
  case f22b => exact ⟨_, _, rfl, secondByte_bind _, .field fun _ => .field fun _ => .signed fun _ => .pure _⟩
  case f23x | f32x => exact ⟨_, _, rfl, secondByte_bind _, .field fun _ => .field fun _ => .field fun _ => .pure _⟩
  case f35c =>
    refine ⟨_, _, rfl, secondByte_bind _, .field fun _ => .field fun _ => .field fun _ => .field fun _ => ?_⟩
    split
    · exact .throw ⟨ErrorKind.noConfusion, by rw [format]; rfl⟩
    · exact .lift_bind (late rfl pool _ _) _

theorem sum_fieldWidths {format : Format} (reads : format ≠ .f10x ∧ format ≠ .f3rc) :
    format.fieldWidths.sum = format.size := by
  cases format
  case f10x | f3rc => simp at reads
  all_goals rfl

variable {op : Opcode} {unit : List UInt8} {base : UInt32} {pool : ConstantPool}

theorem operands_of_unread (noFields : op.format = .f10x ∨ op.format = .f3rc) :
    op.operands unit base pool = .ok [] := by
  unfold Opcode.operands readOperands
  rcases noFields with format | format
  all_goals
    rw [format]
    rfl

theorem hasLayout_readOperands (reads : op.format ≠ .f10x ∧ op.format ≠ .f3rc) :
    HasLayout op.LateFault op.format.fieldWidths (op.readOperands base pool) := by
  obtain ⟨widths, later, fields, same, layout⟩ := op.readOperands_layout base pool reads
  rw [fields, same]
  exact .field fun _ => layout

theorem operands_short (reads : op.format ≠ .f10x ∧ op.format ≠ .f3rc) (short : unit.length < op.format.size) :
    op.operands unit base pool =
      .error (.endOfCode (unit.length - fittedBytes op.format.fieldWidths unit.length)) := by
  rw [← sum_fieldWidths reads] at short
  exact (hasLayout_readOperands reads).run'_short short

/-- Once all bytes are there, only what they refer to can be at fault. -/
theorem lateFault_of_full (full : op.format.size ≤ unit.length) {fault : Fault}
    (failed : op.operands unit base pool = .error fault) : op.LateFault fault := by
  by_cases noFields : op.format = .f10x ∨ op.format = .f3rc
  · rw [operands_of_unread noFields] at failed
    cases failed
  · have reads := not_or.mp noFields
    rw [← sum_fieldWidths reads] at full
    exact (hasLayout_readOperands reads).fault_of_full full failed

theorem operands_take (full : op.format.size ≤ unit.length) :
    op.operands (unit.take op.format.size) base pool = op.operands unit base pool := by
  by_cases noFields : op.format = .f10x ∨ op.format = .f3rc
  · rw [operands_of_unread noFields, operands_of_unread noFields]
  · have reads := not_or.mp noFields
    rw [← sum_fieldWidths reads] at full ⊢
    exact (hasLayout_readOperands reads).run'_take full

theorem operands_change_first (first other : UInt8) (rest : List UInt8) :
    op.operands (first :: rest) base pool = op.operands (other :: rest) base pool := by
  by_cases noFields : op.format = .f10x ∨ op.format = .f3rc
  · rw [operands_of_unread noFields, operands_of_unread noFields]
  · obtain ⟨widths, later, _, same, _⟩ := op.readOperands_layout base pool (not_or.mp noFields)
    have behind (b : UInt8) : op.operands (b :: rest) base pool = later.run' rest := by
      rw [Opcode.operands, same, byte, run'_field_bind, if_neg (by simp)]
      rfl
    rw [behind first, behind other]

/-- The fields of a format are as long as the format says. Operands are read from as many bytes exactly: fewer end
inside or before a field, which is named by the bytes left for it; others that follow, and the value of the opcode
byte, have no influence. Formats 10x and 3rc read nothing, and so never fail. -/
theorem operands_fit_size (op : Opcode) (unit : List UInt8) (base : UInt32) (pool : ConstantPool) :
    (op.format = .f10x ∨ op.format = .f3rc → op.operands unit base pool = .ok []) ∧
    (op.format ≠ .f10x ∧ op.format ≠ .f3rc →
      op.format.fieldWidths.sum = op.format.size ∧
      ((∃ fault, op.operands unit base pool = .error fault ∧ fault.kind = .truncatedBuffer) ↔
        unit.length < op.format.size) ∧
      ∀ fault, op.operands unit base pool = .error fault → fault.kind = .truncatedBuffer →
        fault.message = "Unexpected end of code with " ++
          decimal (unit.length - fittedBytes op.format.fieldWidths unit.length) ++ " bytes left") ∧
    (op.format.size ≤ unit.length →
      op.operands unit base pool = op.operands (unit.take op.format.size) base pool ∧
      ∀ first, op.operands (first :: unit.tail) base pool = op.operands unit base pool) := by
  have short_of_cut {fault : Fault} (failed : op.operands unit base pool = .error fault)
      (isCut : fault.kind = .truncatedBuffer) : unit.length < op.format.size := by
    by_cases full : op.format.size ≤ unit.length
    · exact absurd isCut (lateFault_of_full full failed).1
    · exact Nat.not_le.mp full
  refine ⟨operands_of_unread,
    fun reads => ⟨sum_fieldWidths reads, ⟨?_, fun short => ?_⟩, fun fault failed isCut => ?_⟩,
    fun full => ⟨(operands_take full).symm, fun first => ?_⟩⟩
  · rintro ⟨fault, failed, isCut⟩
    exact short_of_cut failed isCut
  · exact ⟨_, operands_short reads short, rfl⟩
  · rw [operands_short reads (short_of_cut failed isCut)] at failed
    cases failed
    rfl
  · have room := op.format.two_le_size
    cases unit with
    | nil => simp at full; omega
    | cons b rest => exact operands_change_first first b rest

/-- A call that is one byte short and lists too many arguments, a wide constant that ends inside its literal, and a
constant in a byte sequence that goes on behind it. -/
theorem operands_fit_size_samples :
    (∃ fault, (Opcode.ofByte 0x6e).operands [0x6e, 0x60, 1, 0, 2] 0 .placeholder = .error fault ∧
      fault.message = "Unexpected end of code with 0 bytes left") ∧
    (∃ fault, (Opcode.ofByte 0x18).operands [0x18, 0, 1, 2, 3] 0 .placeholder = .error fault ∧
      fault.message = "Unexpected end of code with 3 bytes left") ∧
    (Opcode.ofByte 0x12).operands [0xff, 0x21, 7, 7] 0 .placeholder = .ok [.register 1, .literal 2] := by
  obtain ⟨_, call, _⟩ := operands_fit_size (.ofByte 0x6e) [0x6e, 0x60, 1, 0, 2] 0 .placeholder
  obtain ⟨_, wide, _⟩ := operands_fit_size (.ofByte 0x18) [0x18, 0, 1, 2, 3] 0 .placeholder
  obtain ⟨_, _, long⟩ := operands_fit_size (.ofByte 0x12) [0xff, 0x21, 7, 7] 0 .placeholder
  obtain ⟨_, callCut, callText⟩ := call (by decide)
  obtain ⟨_, wideCut, wideText⟩ := wide (by decide)
  obtain ⟨fault, failed, isCut⟩ := callCut.mpr (by decide)
  obtain ⟨fault', failed', isCut'⟩ := wideCut.mpr (by decide)
  refine ⟨⟨fault, failed, callText fault failed isCut⟩, ⟨fault', failed', wideText fault' failed' isCut'⟩, ?_⟩
  exact (long (by decide)).1

end Opcode

end Dalvik
