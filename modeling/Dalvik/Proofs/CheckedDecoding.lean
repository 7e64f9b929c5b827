import Dalvik.Proofs.FieldLayout
import Dalvik.Proofs.PayloadMap
import Mathlib.Algebra.Group.Int.Defs

namespace Dalvik

open Reader Operand

/-- Why a computation on bounded numbers and slices cannot go on. -/
inductive Trap where
  | overflow | underflow | outOfBounds | emptyInterval | turnsUsedUp
  deriving DecidableEq, Repr

abbrev Checked := Except Trap

namespace Checked

variable {α β : Type}

/-- The result of unsigned arithmetic in 64 bits. -/
def word (n : Nat) : Checked Nat := if n < 2 ^ 64 then .ok n else .error .overflow

/-- An offset into code, or a number of its bytes. Code is shorter than `2 ^ 63`, half of what 64 bits can count. -/
def index (n : Nat) : Checked Nat := if n < 2 ^ 63 then .ok n else .error .overflow

def difference (a b : Nat) : Checked Nat := if b ≤ a then .ok (a - b) else .error .underflow

def slice (bytes : List UInt8) (start stop : Nat) : Checked (List UInt8) :=
  if start ≤ stop ∧ stop ≤ bytes.length then .ok ((bytes.drop start).take (stop - start)) else .error .outOfBounds

/-- The sum of base and displacement in 64 bits with a sign. -/
def address (base : UInt32) (displacement : Int) : Checked Int64 :=
  if -2 ^ 63 ≤ base.toNat + displacement ∧ base.toNat + displacement < 2 ^ 63 then
    .ok (addressFrom base displacement)
  else .error .overflow

/-- A map takes no interval without offsets. -/
def insert [DecidableEq α] (m : IntervalMap α) (new : Interval α) : Checked (IntervalMap α) :=
  if new.start < new.stop then .ok (m.insert new) else .error .emptyInterval

/-- Goes on with what was read, and passes a fault on. -/
def andThen (read : Except Fault α) (next : α → Checked β) : Checked (Except Fault β) :=
  match read with
  | .error fault => .ok (.error fault)
  | .ok value => (next value).map .ok

theorem ok_bind (value : α) (next : α → Checked β) : (.ok value : Checked α) >>= next = next value := rfl

theorem word_eq {n : Nat} (fits : n < 2 ^ 64) : word n = .ok n := if_pos fits

theorem index_eq {n : Nat} (fits : n < 2 ^ 63) : index n = .ok n := if_pos fits

theorem difference_eq {a b : Nat} (le : b ≤ a) : difference a b = .ok (a - b) := if_pos le

theorem slice_eq {bytes : List UInt8} {start stop : Nat} (ordered : start ≤ stop) (inside : stop ≤ bytes.length) :
    slice bytes start stop = .ok ((bytes.drop start).take (stop - start)) := if_pos ⟨ordered, inside⟩

theorem address_eq (base : UInt32) {displacement : Int} (fits : FitsSigned 4 displacement) :
    address base displacement = .ok (addressFrom base displacement) := by
  obtain ⟨lower, upper⟩ := fits
  have small := base.toNat_lt
  simp only [fieldRange, Nat.pow_eq] at lower upper
  exact if_pos (by omega)

theorem insert_eq [DecidableEq α] (m : IntervalMap α) {new : Interval α} (offsets : new.start < new.stop) :
    insert m new = .ok (m.insert new) := if_pos offsets

theorem andThen_eq {read : Except Fault α} {next : α → Checked β} {f : α → β}
    (safe : ∀ value, read = .ok value → next value = .ok (f value)) : andThen read next = .ok (read.map f) := by
  cases read with
  | error fault => rfl
  | ok value => rw [andThen, safe value rfl]; rfl

end Checked

theorem Reader.Ensures.run' {α : Type} {reader : Reader α} {property : α → Prop} (ensures : Ensures reader property)
    {code : List UInt8} {value : α} (read : reader.run' code = .ok value) : property value := by
  obtain ⟨rest, run⟩ := run_of_run' read
  exact ensures code value rest run

open Checked

namespace PayloadKind

/-- As `readLength`, in 64 bits. -/
def checkedLength (kind : PayloadKind) (header : List UInt8) : Checked (Except Fault Nat) :=
  match kind with
  | packedSwitch => andThen ((field 2).run' header) fun entries => do
    let units ← word ((← word (entries * 2)) + 4)
    word (units * 2)
  | sparseSwitch => andThen ((field 2).run' header) fun entries => do
    let units ← word ((← word (entries * 4)) + 2)
    word (units * 2)
  | arrayData =>
    andThen ((do return (← field 2, ← field 4) : Reader (Nat × Nat)).run' header) fun (width, count) => do
      let data ← word (width * count)
      let padded ← word ((data + 1) / 2 * 2)
      word (8 + padded)

theorem checkedLength_eq (kind : PayloadKind) (header : List UInt8) :
    kind.checkedLength header = .ok (kind.readLength.run' header) := by
  cases kind with
  | packedSwitch | sparseSwitch =>
    rw [readLength, run'_bind_pure]
    refine andThen_eq fun entries read => ?_
    have small : entries < 65536 := (ensures_field 2).run' read
    simp (disch := omega) only [word_eq, ok_bind]
  | arrayData =>
    have both : readLength .arrayData =
        (do return (← field 2, ← field 4)) >>= fun read => pure (8 + (read.1 * read.2 + 1) / 2 * 2) := by
      simp only [readLength, bind_assoc, pure_bind]
    have bounds : Ensures (do return (← field 2, ← field 4)) fun read => read.1 < 2 ^ 16 ∧ read.2 < 2 ^ 32 :=
      (ensures_field 2).bind fun _ narrow => (ensures_field 4).bind fun _ few => .pure ⟨narrow, few⟩
    rw [both, run'_bind_pure]
    refine andThen_eq ?_
    rintro ⟨width, count⟩ read
    obtain ⟨narrow, few⟩ := bounds.run' read
    have data : width * count < 2 ^ 16 * 2 ^ 32 := Nat.mul_lt_mul'' narrow few
    simp (disch := omega) only [word_eq, ok_bind]

end PayloadKind

/-- As `payloadAt`, with a slice of the header and lengths of 64 bits. -/
def checkedPayloadAt (code : List UInt8) (offset : Nat) : Checked (Except Fault (Option (PayloadKind × Nat))) :=
  let rest := code.drop offset
  match rest with
  | 0 :: marker :: _ =>
    match PayloadKind.ofMarker? marker with
    | none => .ok (.ok none)
    | some kind => do
      let header ← slice rest 2 rest.length
      match ← kind.checkedLength header with
      | .error fault => return .error fault
      | .ok length =>
        let left ← word rest.length
        if left < length then return .error (.truncatedPayload kind length left)
        else return .ok (some (kind, ← index length))
  | _ => .ok (.ok none)

theorem checkedPayloadAt_eq {code : List UInt8} (short : code.length < 2 ^ 63) (offset : Nat) :
    checkedPayloadAt code offset = .ok (payloadAt code offset) := by
  have left : (code.drop offset).length < 2 ^ 63 := by
    rw [List.length_drop]
    omega
  unfold checkedPayloadAt payloadAt
  generalize code.drop offset = rest at left
  dsimp only
  split
  · rename_i marker header
    split
    · rename_i unknown
      simp only [scanPayload, unknown]
    · rename_i kind known
      obtain rfl := PayloadKind.ofMarker?_eq_some_iff.mp known
      have behind : slice (0 :: kind.marker :: header) 2 (0 :: kind.marker :: header).length = .ok header := by
        rw [slice_eq (by simp) (Nat.le_refl _)]
        simp
      rw [behind, ok_bind, PayloadKind.checkedLength_eq, ok_bind, scanPayload_block, word_eq (by omega)]
      cases kind.readLength.run' header with
      | error fault => rfl
      | ok length =>
        by_cases cut : header.length + 2 < length
        · simp only [ok_bind, List.length_cons, if_pos cut]
          exact congrArg Except.ok (if_pos cut).symm
        · rw [List.length_cons, List.length_cons] at left
          simp only [ok_bind, List.length_cons, if_neg cut, index_eq (show length < 2 ^ 63 by omega)]
          exact congrArg Except.ok (if_neg cut).symm
  · rename_i plain
    unfold scanPayload
    split
    · rename_i marker header
      exact absurd rfl (plain marker header)
    · rfl

namespace Format

/-- The registers in front of a branch target, and the displacement from which the target is computed. -/
def readBranch? : Format → Option (Reader (List Operand × Int))
  | f10t => some do
    let _ ← byte
    return ([], ← signedField 1)
  | f20t => some do
    let _ ← secondByte
    return ([], ← signedField 2)
  | f21t => some do
    let aa ← secondByte
    return ([ofRegister aa], ← signedField 2)
  | f22t => some do
    let ba ← secondByte
    return ([ofRegister (ba % 16), ofRegister (ba / 16)], ← signedField 2)
  | f30t => some do
    let _ ← secondByte
    return ([], ← signedField 4)
  | f31t => some do
    let aa ← secondByte
    return ([ofRegister aa], ← signedField 4)
  | _ => none

/-- The operand for the address that a branch goes to. -/
def targetAt (format : Format) (address : Int64) : Operand :=
  if format = f30t then farTarget address else target address

theorem readBranch?_fits {format : Format} {reader : Reader (List Operand × Int)}
    (branch : format.readBranch? = some reader) : Ensures reader fun read => FitsSigned 4 read.2 := by
  cases format
  all_goals cases branch
  case f10t =>
    exact ensures_byte.bind fun _ _ => (ensures_signedField 1).bind fun _ fits => .pure (fits.widen (by decide))
  all_goals
    exact ensures_secondByte.bind fun _ _ =>
      (ensures_signedField _).bind fun _ fits => .pure (fits.widen (by decide))

end Format

namespace Opcode

/-- As `Opcode.operands`, with addresses computed in 64 bits. -/
def checkedOperands (op : Opcode) (unit : List UInt8) (base : UInt32) (pool : ConstantPool) :
    Checked (Except Fault (List Operand)) :=
  match op.format.readBranch? with
  | none => .ok (op.operands unit base pool)
  | some reader => andThen (reader.run' unit) fun (registers, displacement) => do
    return registers ++ [op.format.targetAt (← address base displacement)]

theorem readOperands_branch {op : Opcode} {reader : Reader (List Operand × Int)}
    (branch : op.format.readBranch? = some reader) (base : UInt32) (pool : ConstantPool) :
    op.readOperands base pool = reader >>= fun read =>
      pure (read.1 ++ [op.format.targetAt (addressFrom base read.2)]) := by
  unfold readOperands
  cases format : op.format
  all_goals
    rw [format] at branch
    cases branch
  all_goals
    simp only [bind_assoc, pure_bind, Format.targetAt]
    rfl

theorem checkedOperands_eq (op : Opcode) (unit : List UInt8) (base : UInt32) (pool : ConstantPool) :
    op.checkedOperands unit base pool = .ok (op.operands unit base pool) := by
  unfold checkedOperands
  split
  · rfl
  · rename_i reader branch
    rw [Opcode.operands, readOperands_branch branch, run'_bind_pure]
    refine andThen_eq ?_
    rintro ⟨registers, displacement⟩ read
    have fits : FitsSigned 4 displacement := (Format.readBranch?_fits branch).run' read
    dsimp only
    rw [address_eq base fits]
    rfl

end Opcode

/-- As `instructionAt`, with the bytes of the instruction cut out of the code, and those for the log out of
these. -/
def checkedInstructionAt (code : List UInt8) (offset : Nat) (base : UInt32) (pool : ConstantPool) :
    Checked (Logged (Except DecodeError Instruction)) :=
  match code[offset]? with
  | none => .ok ⟨.error ⟨.noInstruction offset code.length, []⟩, []⟩
  | some first => do
    let op := Opcode.ofByte first
    let size ← index (op.format.units * 2)
    let left ← difference code.length offset
    if left < size then return ⟨.error ⟨.truncatedInstruction op.mnemonic offset size left, []⟩, []⟩
    else
      let unit ← slice code offset (← index (offset + size))
      let log := [Event.decoding op.mnemonic op.format (← slice unit 0 (min unit.length size))]
      match ← op.checkedOperands unit base pool with
      | .ok operands => return ⟨.ok ⟨offset, op, operands⟩, log⟩
      | .error fault => return ⟨.error ⟨fault, [.instruction op.mnemonic offset]⟩, log⟩

theorem checkedInstructionAt_eq {code : List UInt8} (short : code.length < 2 ^ 63) (offset : Nat) (base : UInt32)
    (pool : ConstantPool) :
    checkedInstructionAt code offset base pool = .ok (instructionAt code offset base pool) := by
  unfold checkedInstructionAt instructionAt
  rw [← List.head?_drop]
  cases suffix : code.drop offset with
  | nil => rfl
  | cons first rest =>
    have lengths := congrArg List.length suffix
    rw [List.length_drop, List.length_cons] at lengths
    have size : index ((Opcode.ofByte first).format.units * 2) = .ok (Opcode.ofByte first).format.size := by
      refine index_eq ?_
      cases (Opcode.ofByte first).format <;> decide
    dsimp only [List.head?_cons]
    rw [size, ok_bind, difference_eq (by omega), ok_bind, lengths]
    by_cases cut : rest.length + 1 < (Opcode.ofByte first).format.size
    · have all : (first :: rest).take (Opcode.ofByte first).format.size = first :: rest :=
        List.take_of_length_le (Nat.le_of_lt cut)
      simp only [instructionFrom, all, List.length_cons, if_pos cut]
      rfl
    · have full : ((first :: rest).take (Opcode.ofByte first).format.size).length =
          (Opcode.ofByte first).format.size :=
        List.length_take_of_le (Nat.not_lt.mp cut)
      rw [if_neg cut, index_eq (by omega), ok_bind, slice_eq (by omega) (by omega), ok_bind, suffix,
        Nat.add_sub_cancel_left, full, Nat.min_self, slice_eq (Nat.zero_le _) (by omega), ok_bind,
        Opcode.checkedOperands_eq, ok_bind]
      simp only [instructionFrom, full, Nat.lt_irrefl, if_false, Opcode.tracedOperands, List.drop_zero,
        Nat.sub_zero]
      cases (Opcode.ofByte first).operands ((first :: rest).take (Opcode.ofByte first).format.size) base pool <;>
        rfl

end Dalvik
