import Dalvik.Proofs.Items
import Dalvik.Proofs.OperandAssembly

namespace Dalvik

theorem littleEndian_lt (bytes : List UInt8) : littleEndian bytes < fieldRange bytes.length := by
  induction bytes with
  | nil => decide
  | cons b rest ih =>
    have small := b.toNat_lt
    rw [littleEndian, List.length_cons, fieldRange_succ]
    omega

theorem fitsSigned_bmod (width n : Nat) : FitsSigned width (Int.bmod n (fieldRange width)) := by
  have positive := fieldRange_pos width
  have lower := Int.le_bmod (x := n) positive
  have upper := Int.bmod_lt (x := n) positive
  simp only [FitsSigned]
  omega

/-- A narrow field holds no number that does not fit in a wider one. -/
theorem FitsSigned.widen {width wider : Nat} {v : Int} (fits : FitsSigned width v) (le : width ≤ wider) :
    FitsSigned wider v := by
  obtain ⟨lower, upper⟩ := fits
  have ranges : fieldRange width ≤ fieldRange wider := Nat.pow_le_pow_right (by decide) le
  constructor <;> omega

namespace Operand

/-- The sum of base and displacement never leaves the range of an address. -/
theorem addressFrom_toInt (base : UInt32) {displacement : Int} (fits : FitsSigned 4 displacement) :
    (addressFrom base displacement).toInt = base.toNat + displacement := by
  obtain ⟨lower, upper⟩ := fits
  have small := base.toNat_lt
  have cast : Int64.ofNat base.toNat = Int64.ofInt base.toNat := rfl
  simp only [fieldRange, Nat.pow_eq] at lower upper
  rw [addressFrom, cast, ← Int64.ofInt_add]
  exact Int64.toInt_ofInt_of_le (by omega) (by omega)

theorem displacementTo_addressFrom (base : UInt32) {displacement : Int} (fits : FitsSigned 4 displacement) :
    displacementTo base (addressFrom base displacement) = displacement := by
  rw [displacementTo, addressFrom_toInt base fits]
  omega

end Operand

open Operand

namespace Reader

/-- Every value that the reader gives has the property. -/
def Ensures {α : Type} (reader : Reader α) (property : α → Prop) : Prop :=
  ∀ code value rest, reader.run code = .ok (value, rest) → property value

variable {α β : Type}

theorem Ensures.pure {property : α → Prop} {value : α} (holds : property value) :
    Ensures (pure value) property := by
  intro code result rest run
  cases run
  exact holds

theorem Ensures.bind {reader : Reader α} {next : α → Reader β} {property : α → Prop} {result : β → Prop}
    (first : Ensures reader property) (second : ∀ value, property value → Ensures (next value) result) :
    Ensures (reader >>= next) result := by
  intro code final rest run
  rw [StateT.run_bind] at run
  cases step : reader.run code with
  | error fault =>
    rw [step] at run
    cases run
  | ok read =>
    rw [step] at run
    exact second read.1 (first code read.1 read.2 step) read.2 final rest run

theorem Ensures.lift {result : Except Fault α} {property : α → Prop}
    (holds : ∀ value, result = .ok value → property value) :
    Ensures (liftM result) property := by
  intro code value rest run
  cases found : result with
  | error fault =>
    rw [found] at run
    cases run
  | ok given =>
    rw [found] at run
    cases run
    exact holds value found

theorem Ensures.throw {fault : Fault} {property : α → Prop} : Ensures (throw fault) property := by
  intro code value rest run
  cases run

theorem ensures_field (width : Nat) : Ensures (field width) (· < fieldRange width) := by
  intro code value rest run
  rw [field_run] at run
  split at run
  · cases run
  · rename_i full
    cases run
    have bound := littleEndian_lt (code.take width)
    rwa [List.length_take_of_le (Nat.not_lt.mp full)] at bound

theorem ensures_byte : Ensures byte (· < 256) := ensures_field 1

theorem ensures_secondByte : Ensures secondByte (· < 256) := ensures_byte.bind fun _ _ => ensures_byte

theorem ensures_signedField (width : Nat) : Ensures (signedField width) (FitsSigned width) :=
  (ensures_field width).bind fun n _ => .pure (fitsSigned_bmod width n)

end Reader

open Reader

theorem ConstantPool.resolve_eq_ok {pool : ConstantPool} {kind : ReferenceKind} {index : UInt32} {entry : Operand}
    (found : pool.resolve kind index = .ok entry) :
    ∃ name, entry = .reference kind index name ∧ pool.lookup kind index = some name := by
  unfold resolve at found
  split at found
  · cases found
  · split at found
    · rename_i name isName
      cases found
      exact ⟨name, rfl, isName⟩
    · cases found

namespace Opcode

theorem ensures_entry (op : Opcode) (pool : ConstantPool) {width n : Nat} (small : n < fieldRange width)
    (narrow : width ≤ 4) :
    Ensures (liftM (pool.resolve op.reference (UInt32.ofNat n)))
      fun entry => ∃ kind index name, entry = .reference kind index name ∧ op.Names pool width kind index name := by
  refine .lift fun entry found => ?_
  obtain ⟨name, rfl, isName⟩ := ConstantPool.resolve_eq_ok found
  have range : fieldRange width ≤ fieldRange 4 := Nat.pow_le_pow_right (by decide) narrow
  refine ⟨_, _, name, rfl, rfl, ?_, isName⟩
  rw [UInt32.toNat_ofNat_of_lt' (Nat.lt_of_lt_of_le small range)]
  exact small

/-- A register number that is read from a narrow field stays as small. -/
theorem ofNat_toNat_lt {n bound : Nat} (small : n < bound) (narrow : bound ≤ 0x10000) :
    (UInt16.ofNat n).toNat < bound := by
  rwa [UInt16.toNat_ofNat_of_lt' (Nat.lt_of_lt_of_le small narrow)]

theorem fits_addressFrom (base : UInt32) {width : Nat} {displacement : Int} (fits : FitsSigned width displacement)
    (narrow : width ≤ 4) : FitsSigned width (displacementTo base (addressFrom base displacement)) := by
  rwa [displacementTo_addressFrom base (fits.widen narrow)]

theorem fits_ofLiteral {width : Nat} {v : Int} (fits : FitsSigned width v) (narrow : width ≤ 8) :
    FitsSigned width (Int64.ofInt v).toInt := by
  obtain ⟨lower, upper⟩ := fits.widen narrow
  simp only [fieldRange, Nat.pow_eq] at lower upper
  rwa [Int64.toInt_ofInt_of_le (by omega) (by omega)]

theorem nibble_literal (n : Nat) :
    -8 ≤ (Int64.ofInt (Int.bmod n 16)).toInt ∧ (Int64.ofInt (Int.bmod n 16)).toInt < 8 := by
  have lower : -8 ≤ Int.bmod n 16 := Int.le_bmod (by decide)
  have upper : Int.bmod n 16 < 8 := Int.bmod_lt (by decide)
  rw [Int64.toInt_ofInt_of_le (by omega) (by omega)]
  exact ⟨lower, upper⟩

/-- The arguments of a call are some of five nibbles. -/
theorem arguments_registers {ag dc fe count : Nat} (dcSmall : dc < 256) (feSmall : fe < 256) :
    ∃ registers : List UInt16,
      ([dc % 16, dc / 16, fe % 16, fe / 16, ag % 16].take count).map ofRegister = registers.map .register ∧
        registers.length ≤ 5 ∧ ∀ r ∈ registers, r.toNat < 16 := by
  refine ⟨([dc % 16, dc / 16, fe % 16, fe / 16, ag % 16].take count).map UInt16.ofNat, ?_, ?_, ?_⟩
  · rw [List.map_map]
    rfl
  · rw [List.length_map, List.length_take]
    exact Nat.min_le_right _ _
  · intro r member
    obtain ⟨n, taken, rfl⟩ := List.mem_map.mp member
    have nibble := List.mem_of_mem_take taken
    simp only [List.mem_cons, List.not_mem_nil, or_false] at nibble
    exact ofNat_toNat_lt (by omega) (by decide)

/-- What is read from the fields of a format fits in them. -/
theorem readOperands_ensures (op : Opcode) (base : UInt32) (pool : ConstantPool) :
    Ensures (op.readOperands base pool) (op.Legal base pool) := by
  unfold readOperands Legal
  cases op.format
  all_goals dsimp only
  case f10x | f3rc => exact .pure rfl
  case f10t =>
    exact ensures_byte.bind fun _ _ => (ensures_signedField 1).bind fun _ fits =>
      .pure ⟨_, rfl, fits_addressFrom base fits (by decide)⟩
  case f20t | f30t =>
    exact ensures_secondByte.bind fun _ _ => (ensures_signedField _).bind fun _ fits =>
      .pure ⟨_, rfl, fits_addressFrom base fits (by decide)⟩
  case f21t | f31t =>
    exact ensures_secondByte.bind fun _ small => (ensures_signedField _).bind fun _ fits =>
      .pure ⟨_, _, rfl, ofNat_toNat_lt small (by decide), fits_addressFrom base fits (by decide)⟩
  case f22t =>
    exact ensures_secondByte.bind fun _ small => (ensures_signedField _).bind fun _ fits =>
      .pure ⟨_, _, _, rfl, ofNat_toNat_lt (by omega) (by decide), ofNat_toNat_lt (by omega) (by decide),
        fits_addressFrom base fits (by decide)⟩
  case f11n =>
    exact ensures_secondByte.bind fun ba small =>
      .pure ⟨_, _, rfl, ofNat_toNat_lt (by omega) (by decide), nibble_literal (ba / 16)⟩
  case f11x =>
    exact ensures_secondByte.bind fun _ small => .pure ⟨_, rfl, ofNat_toNat_lt small (by decide)⟩
  case f12x =>
    exact ensures_secondByte.bind fun _ small =>
      .pure ⟨_, _, rfl, ofNat_toNat_lt (by omega) (by decide), ofNat_toNat_lt (by omega) (by decide)⟩
  case f21s | f31i =>
    exact ensures_secondByte.bind fun _ small => (ensures_signedField _).bind fun _ fits =>
      .pure ⟨_, _, rfl, ofNat_toNat_lt small (by decide), fits_ofLiteral fits (by decide)⟩
  case f51l =>
    exact ensures_secondByte.bind fun _ small => (ensures_signedField _).bind fun _ _ =>
      .pure ⟨_, _, rfl, ofNat_toNat_lt small (by decide)⟩
  case f21h =>
    exact ensures_secondByte.bind fun _ small => (ensures_field 2).bind fun _ _ =>
      .pure ⟨_, _, _, rfl, ofNat_toNat_lt small (by decide), rfl⟩
  case f22b =>
    exact ensures_secondByte.bind fun _ first => ensures_byte.bind fun _ second =>
      (ensures_signedField _).bind fun _ fits => .pure ⟨_, _, _, rfl, ofNat_toNat_lt first (by decide),
        ofNat_toNat_lt second (by decide), fits_ofLiteral fits (by decide)⟩
  case f22s =>
    exact ensures_secondByte.bind fun _ small => (ensures_signedField _).bind fun _ fits =>
      .pure ⟨_, _, _, rfl, ofNat_toNat_lt (by omega) (by decide), ofNat_toNat_lt (by omega) (by decide),
        fits_ofLiteral fits (by decide)⟩
  case f22x =>
    exact ensures_secondByte.bind fun _ small => (ensures_field 2).bind fun _ _ =>
      .pure ⟨_, _, rfl, ofNat_toNat_lt small (by decide)⟩
  case f23x =>
    exact ensures_secondByte.bind fun _ first => ensures_byte.bind fun _ second => ensures_byte.bind fun _ third =>
      .pure ⟨_, _, _, rfl, ofNat_toNat_lt first (by decide), ofNat_toNat_lt second (by decide),
        ofNat_toNat_lt third (by decide)⟩
  case f32x =>
    exact ensures_secondByte.bind fun _ _ => (ensures_field 2).bind fun _ _ => (ensures_field 2).bind fun _ _ =>
      .pure ⟨_, _, rfl⟩
  case f21c | f31c =>
    refine ensures_secondByte.bind fun _ small => (ensures_field _).bind fun _ inField =>
      (op.ensures_entry pool inField (by decide)).bind ?_
    rintro _ ⟨kind, index, name, rfl, names⟩
    exact .pure ⟨_, kind, index, name, rfl, ofNat_toNat_lt small (by decide), names⟩
  case f22c =>
    refine ensures_secondByte.bind fun _ small => (ensures_field 2).bind fun _ inField =>
      (op.ensures_entry pool inField (by decide)).bind ?_
    rintro _ ⟨kind, index, name, rfl, names⟩
    exact .pure ⟨_, _, kind, index, name, rfl, ofNat_toNat_lt (by omega) (by decide),
      ofNat_toNat_lt (by omega) (by decide), names⟩
  case f35c =>
    refine ensures_secondByte.bind fun ag small => (ensures_field 2).bind fun _ inField =>
      ensures_byte.bind fun dc first => ensures_byte.bind fun fe second => ?_
    split
    · exact .throw
    · refine (op.ensures_entry pool inField (by decide)).bind ?_
      rintro _ ⟨kind, index, name, rfl, names⟩
      obtain ⟨registers, same, few, narrow⟩ := arguments_registers first second
      exact .pure ⟨registers, kind, index, name, by rw [same], few, narrow, names⟩

theorem operands_legal {op : Opcode} {unit : List UInt8} {base : UInt32} {pool : ConstantPool}
    {operands : List Operand} (read : op.operands unit base pool = .ok operands) : op.Legal base pool operands := by
  rw [Opcode.operands, StateT.run'_eq] at read
  cases run : (op.readOperands base pool).run unit with
  | error fault =>
    rw [run] at read
    cases read
  | ok result =>
    rw [run] at read
    cases read
    exact op.readOperands_ensures base pool unit result.1 result.2 run

end Opcode

/-- An instruction that is decoded has the opcode of its first byte and operands that fit its format. -/
theorem instructionAt_legal {code : List UInt8} {offset : Nat} {base : UInt32} {pool : ConstantPool}
    {i : Instruction} (decoded : (instructionAt code offset base pool).value = .ok i) :
    (∃ first, i.opcode = Opcode.ofByte first) ∧ i.opcode.Legal base pool i.operands := by
  unfold instructionAt at decoded
  cases suffix : code.drop offset with
  | nil =>
    rw [suffix] at decoded
    cases decoded
  | cons first rest =>
    rw [suffix, instructionFrom_value] at decoded
    dsimp only at decoded
    split at decoded
    · cases decoded
    · unfold Opcode.instruction at decoded
      split at decoded
      · rename_i operands read
        cases decoded
        exact ⟨⟨first, rfl⟩, Opcode.operands_legal read⟩
      · cases decoded

theorem itemAt_legal {code : List UInt8} {pc : Nat} {base : UInt32} {pool : ConstantPool} {i : Instruction}
    (found : (itemAt code pc base pool).value = .ok (.instruction i)) : i.opcode.Legal base pool i.operands := by
  rw [itemAt_value] at found
  split at found
  · cases found
  · cases found
  · cases decoded : (instructionAt code pc base pool).value with
    | error e =>
      rw [decoded] at found
      cases found
    | ok j =>
      rw [decoded] at found
      cases found
      exact (instructionAt_legal decoded).2

end Dalvik
