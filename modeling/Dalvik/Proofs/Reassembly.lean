import Dalvik.Proofs.FieldLayout

namespace Dalvik

theorem littleEndianBytes_littleEndian (bytes : List UInt8) :
    littleEndianBytes bytes.length (littleEndian bytes) = bytes := by
  induction bytes with
  | nil => rfl
  | cons b rest ih =>
    have small := b.toNat_lt
    have low : UInt8.ofNat (b.toNat + 256 * littleEndian rest) = b := by
      refine UInt8.toNat_inj.mp ?_
      rw [UInt8.toNat_ofNat']
      omega
    have high : (b.toNat + 256 * littleEndian rest) / 256 = littleEndian rest := by omega
    rw [littleEndian, List.length_cons, littleEndianBytes, low, high, ih]

/-- A number that is read in two's complement is written back as it was. -/
theorem signedBytes_bmod {width n : Nat} (small : n < fieldRange width) :
    signedBytes width (Int.bmod n (fieldRange width)) = littleEndianBytes width n := by
  rw [signedBytes, Int.bmod_emod, Int.emod_eq_of_lt (by omega) (by omega), Int.toNat_natCast]

namespace Reader

/-- Whatever the reader gives, it took bytes that the value stands for. -/
def Recovers {α : Type} (reader : Reader α) (stands : List UInt8 → α → Prop) : Prop :=
  ∀ code value rest, reader.run code = .ok (value, rest) → ∃ bytes, code = bytes ++ rest ∧ stands bytes value

variable {α β : Type}

theorem Recovers.pure {stands : List UInt8 → α → Prop} {value : α} (holds : stands [] value) :
    Recovers (pure value) stands := by
  intro code result rest run
  cases run
  exact ⟨[], rfl, holds⟩

theorem Recovers.imp {reader : Reader α} {stands other : List UInt8 → α → Prop} (recovers : Recovers reader stands)
    (weaker : ∀ bytes value, stands bytes value → other bytes value) : Recovers reader other := by
  intro code value rest run
  obtain ⟨bytes, same, holds⟩ := recovers code value rest run
  exact ⟨bytes, same, weaker bytes value holds⟩

theorem Recovers.bind {reader : Reader α} {next : α → Reader β} {stands : List UInt8 → α → Prop}
    {result : List UInt8 → β → Prop} (first : Recovers reader stands)
    (second : ∀ bytes value, stands bytes value →
      Recovers (next value) fun more final => result (bytes ++ more) final) :
    Recovers (reader >>= next) result := by
  intro code final rest run
  rw [StateT.run_bind] at run
  cases step : reader.run code with
  | error fault =>
    rw [step] at run
    cases run
  | ok read =>
    rw [step] at run
    obtain ⟨bytes, same, holds⟩ := first code read.1 read.2 step
    obtain ⟨more, behind, final⟩ := second bytes read.1 holds read.2 final rest run
    exact ⟨bytes ++ more, by rw [same, behind, List.append_assoc], final⟩

theorem Recovers.lift {result : Except Fault α} {stands : List UInt8 → α → Prop}
    (holds : ∀ value, result = .ok value → stands [] value) : Recovers (liftM result) stands := by
  intro code value rest run
  cases found : result with
  | error fault =>
    rw [found] at run
    cases run
  | ok given =>
    rw [found] at run
    cases run
    exact ⟨[], rfl, holds value found⟩

theorem Recovers.throw {fault : Fault} {stands : List UInt8 → α → Prop} : Recovers (throw fault) stands := by
  intro code value rest run
  cases run

theorem recovers_field (width : Nat) :
    Recovers (field width) fun bytes n => bytes = littleEndianBytes width n ∧ n < fieldRange width := by
  intro code n rest run
  have small := ensures_field width code n rest run
  rw [field_run] at run
  split at run
  · cases run
  · rename_i full
    cases run
    have length : (code.take width).length = width := List.length_take_of_le (Nat.not_lt.mp full)
    have written := littleEndianBytes_littleEndian (code.take width)
    rw [length] at written
    exact ⟨_, (List.take_append_drop width code).symm, written.symm, small⟩

theorem recovers_byte : Recovers byte fun bytes n => bytes = [UInt8.ofNat n] ∧ n < 256 := recovers_field 1

theorem recovers_secondByte :
    Recovers secondByte fun bytes n => ∃ first, bytes = [first, UInt8.ofNat n] ∧ n < 256 :=
  recovers_byte.bind fun _ first ⟨same, _⟩ => recovers_byte.imp fun _ _ ⟨own, small⟩ =>
    ⟨UInt8.ofNat first, by rw [same, own]; rfl, small⟩

theorem recovers_signedField (width : Nat) :
    Recovers (signedField width) fun bytes v => bytes = signedBytes width v ∧ FitsSigned width v := by
  refine (recovers_field width).bind fun bytes n ⟨same, small⟩ => .pure ⟨?_, fitsSigned_bmod width n⟩
  rw [List.append_nil, signedBytes_bmod small, same]

end Reader

open Reader Operand

/-- The bits of a byte outside the nibbles that are used. -/
def unusedNibbles (low high : Bool) : UInt8 := (if low then 0 else 0x0f) ||| if high then 0 else 0xf0

/-- What is left of a byte's value with zeros for the nibbles that are not used. -/
def keptNibbles (low high : Bool) (n : Nat) : Nat := (if low then n % 16 else 0) + 16 * if high then n / 16 else 0

namespace Format

/-- The bits of an instruction that its format ignores, byte by byte. A call ignores the registers beyond the
number of its arguments: four of them stand in its last two bytes, the fifth beside that number. -/
def ignoredBits (format : Format) (unit : List UInt8) : List UInt8 :=
  let count := (unit.getD 1 0).toNat / 16
  match format with
  | f10x | f20t | f30t | f32x => 0 :: 0xff :: List.replicate (format.size - 2) 0
  | f3rc => 0 :: List.replicate (format.size - 1) 0xff
  | f35c => [0, unusedNibbles (4 < count) true, 0, 0, unusedNibbles (0 < count) (1 < count),
      unusedNibbles (2 < count) (3 < count)]
  | _ => List.replicate format.size 0

/-- The bytes of an instruction with zeros for the bits that are ignored. -/
def meaningful (format : Format) (unit : List UInt8) : List UInt8 :=
  List.zipWith (fun b ignored => b &&& ~~~ignored) unit (format.ignoredBits unit)

end Format

set_option maxRecDepth 4096 in
theorem and_not_unusedNibbles (b : UInt8) (low high : Bool) :
    b &&& ~~~unusedNibbles low high = UInt8.ofNat (keptNibbles low high b.toNat) := by
  cases b with
  | ofBitVec b =>
    cases b with
    | ofFin b =>
      revert b low high
      decide

theorem and_not_zero (b : UInt8) : b &&& ~~~0 = b := by
  simp

theorem and_not_full (b : UInt8) : b &&& ~~~0xff = 0 := and_not_unusedNibbles b false false

theorem zipWith_replicate_zero {bytes : List UInt8} {n : Nat} (length : bytes.length = n) :
    List.zipWith (fun b ignored => b &&& ~~~ignored) bytes (List.replicate n 0) = bytes := by
  subst length
  induction bytes with
  | nil => rfl
  | cons b bytes ih => rw [List.length_cons, List.replicate_succ, List.zipWith_cons_cons, ih, and_not_zero]

theorem zipWith_replicate_full {bytes : List UInt8} {n : Nat} (length : bytes.length = n) :
    List.zipWith (fun b ignored => b &&& ~~~ignored) bytes (List.replicate n 0xff) = List.replicate n 0 := by
  subst length
  induction bytes with
  | nil => rfl
  | cons b bytes ih =>
    rw [List.length_cons, List.replicate_succ, List.replicate_succ, List.zipWith_cons_cons, ih, and_not_full]

namespace Format

theorem meaningful_of_all {format : Format} {unit : List UInt8} (length : unit.length = format.size)
    (all : format.ignoredBits unit = List.replicate format.size 0) : format.meaningful unit = unit := by
  rw [meaningful, all, zipWith_replicate_zero length]

theorem meaningful_of_second {format : Format} {first second : UInt8} {rest : List UInt8}
    (length : rest.length = format.size - 2)
    (ignored : format.ignoredBits (first :: second :: rest) = 0 :: 0xff :: List.replicate (format.size - 2) 0) :
    format.meaningful (first :: second :: rest) = first :: 0 :: rest := by
  rw [meaningful, ignored, List.zipWith_cons_cons, List.zipWith_cons_cons, and_not_zero, and_not_full,
    zipWith_replicate_zero length]

theorem meaningful_of_first {format : Format} {first : UInt8} {tail : List UInt8}
    (length : tail.length + 1 = format.size)
    (ignored : format.ignoredBits (first :: tail) = 0 :: List.replicate (format.size - 1) 0xff) :
    format.meaningful (first :: tail) = first :: List.replicate (format.size - 1) 0 := by
  rw [meaningful, ignored, List.zipWith_cons_cons, and_not_zero, zipWith_replicate_full (by omega)]

theorem length_meaningful_le (format : Format) (unit : List UInt8) :
    (format.meaningful unit).length ≤ unit.length := by
  rw [meaningful, List.length_zipWith]
  exact Nat.min_le_left _ _

end Format

/-- A literal keeps the value of its field. -/
theorem FitsSigned.toInt_ofInt {width : Nat} {v : Int} (fits : FitsSigned width v) (narrow : width ≤ 8) :
    (Int64.ofInt v).toInt = v := by
  obtain ⟨lower, upper⟩ := fits.widen narrow
  simp only [fieldRange, Nat.pow_eq] at lower upper
  exact Int64.toInt_ofInt_of_le (by omega) (by omega)

theorem toNat_ofNat_register {n : Nat} (small : n < 256) : (UInt16.ofNat n).toNat = n :=
  UInt16.toNat_ofNat_of_lt' (Nat.lt_trans small (by decide))

theorem toNat_ofNat_wide {n : Nat} (small : n < fieldRange 2) : (UInt16.ofNat n).toNat = n :=
  UInt16.toNat_ofNat_of_lt' small

theorem toNat_ofNat_index {width n : Nat} (small : n < fieldRange width) (narrow : width ≤ 4) :
    (UInt32.ofNat n).toNat = n := by
  have ranges : fieldRange width ≤ fieldRange 4 := Nat.pow_le_pow_right (by decide) narrow
  exact UInt32.toNat_ofNat_of_lt' (Nat.lt_of_lt_of_le small ranges)

/-- Two registers share a byte. -/
theorem nibbles_registers {n : Nat} (small : n < 256) :
    (UInt16.ofNat (n % 16)).toNat + 16 * (UInt16.ofNat (n / 16)).toNat = n := by
  rw [toNat_ofNat_register (by omega), toNat_ofNat_register (by omega), Nat.mod_add_div]

/-- A register shares its byte with a literal. -/
theorem nibbles_literal {n : Nat} (small : n < 256) :
    (UInt16.ofNat (n % 16)).toNat + 16 * ((Int64.ofInt (Int.bmod (n / 16 : Nat) 16)).toInt % 16).toNat = n := by
  have lower : -8 ≤ Int.bmod (n / 16 : Nat) 16 := Int.le_bmod (by decide)
  have upper : Int.bmod (n / 16 : Nat) 16 < 8 := Int.bmod_lt (by decide)
  have residue : Int.bmod (n / 16 : Nat) 16 % 16 = (n / 16 : Nat) := by
    rw [show (16 : Int) = (16 : Nat) from rfl, Int.bmod_emod]
    omega
  rw [toNat_ofNat_register (by omega), Int64.toInt_ofInt_of_le (by omega) (by omega), residue, Int.toNat_natCast,
    Nat.mod_add_div]

theorem ConstantPool.recovers_resolve (pool : ConstantPool) (kind : ReferenceKind) (index : UInt32) :
    Recovers (liftM (pool.resolve kind index)) fun bytes entry =>
      bytes = [] ∧ ∃ name, entry = .reference kind index name :=
  .lift fun _ found => by
    obtain ⟨name, same, _⟩ := resolve_eq_ok found
    exact ⟨rfl, name, same⟩

namespace Opcode

/-- The operands are written back as the bytes that were read, whatever the first of these is. -/
def Reassembles (op : Opcode) (base : UInt32) (bytes : List UInt8) (operands : List Operand) : Prop :=
  op.assemble base operands = op.format.meaningful (op.value :: bytes.tail)

/-- Where the format ignores nothing, every byte is written back. -/
theorem reassembles_of_all {op : Opcode} {base : UInt32} {first : UInt8} {tail : List UInt8}
    {operands : List Operand} {format : Format} (same : op.format = format) (length : tail.length + 1 = format.size)
    (all : ∀ unit, format.ignoredBits unit = List.replicate format.size 0)
    (written : op.assemble base operands = op.value :: tail) : op.Reassembles base (first :: tail) operands := by
  have full : (op.value :: tail).length = format.size := length
  rw [Reassembles, same, List.tail_cons, Format.meaningful_of_all full (all _), written]

/-- Where the format ignores the second byte, a zero is written there. -/
theorem reassembles_of_second {op : Opcode} {base : UInt32} {first second : UInt8} {rest : List UInt8}
    {operands : List Operand} {format : Format} (same : op.format = format) (length : rest.length = format.size - 2)
    (ignored : ∀ unit, format.ignoredBits unit = 0 :: 0xff :: List.replicate (format.size - 2) 0)
    (written : op.assemble base operands = op.value :: 0 :: rest) :
    op.Reassembles base (first :: second :: rest) operands := by
  rw [Reassembles, same, List.tail_cons, Format.meaningful_of_second length (ignored _), written]

/-- The registers of a call are the nibbles up to the number of its arguments, and the others are zero. -/
theorem argument_take {nibbles : List Nat} (small : ∀ n ∈ nibbles, n < 16) (count place : Nat) :
    argument ((nibbles.take count).map UInt16.ofNat) place = if place < count then nibbles.getD place 0 else 0 := by
  rw [argument, List.getD_eq_getElem?_getD, List.getElem?_map, List.getElem?_take]
  split
  · cases present : nibbles[place]? with
    | none => simp [present]
    | some n =>
      have bound := small n (List.mem_of_getElem? present)
      simp [present]
      omega
  · rfl

/-- A call writes the nibbles of the registers that it lists. -/
theorem assembleCall_nibbles (op : Opcode) {ag dc fe index : Nat} (few : ag / 16 ≤ 5) (smallAg : ag < 256)
    (smallDc : dc < 256) (smallFe : fe < 256) (bound : index < fieldRange 2) :
    op.assembleCall (([dc % 16, dc / 16, fe % 16, fe / 16, ag % 16].take (ag / 16)).map UInt16.ofNat)
        (UInt32.ofNat index) =
      Format.meaningful .f35c
        (op.value :: UInt8.ofNat ag :: (littleEndianBytes 2 index ++ [UInt8.ofNat dc, UInt8.ofNat fe])) := by
  have small : ∀ n ∈ [dc % 16, dc / 16, fe % 16, fe / 16, ag % 16], n < 16 := by
    simp
    omega
  have length : (([dc % 16, dc / 16, fe % 16, fe / 16, ag % 16].take (ag / 16)).map UInt16.ofNat).length =
      ag / 16 := by
    rw [List.length_map, List.length_take_of_le few]
  have value {n : Nat} (small : n < 256) : (UInt8.ofNat n).toNat = n := UInt8.toNat_ofNat_of_lt' small
  rw [assembleCall_eq, length, toNat_ofNat_index bound (by decide)]
  simp only [Format.meaningful, Format.ignoredBits, littleEndianBytes, firstUnit, List.cons_append, List.nil_append,
    List.zipWith_cons_cons, List.zipWith_nil_left, List.getD_cons_succ, List.getD_cons_zero, and_not_zero,
    and_not_unusedNibbles, value smallAg, value smallDc, value smallFe, argument_take small, keptNibbles,
    decide_eq_true_eq, if_true]

theorem readOperands_recovers_call (op : Opcode) (base : UInt32) (pool : ConstantPool) (call : op.format = .f35c) :
    Recovers (op.readOperands base pool) (op.Reassembles base) := by
  unfold readOperands
  rw [call]
  refine recovers_secondByte.bind ?_
  rintro _ ag ⟨first, rfl, smallAg⟩
  refine (recovers_field 2).bind ?_
  rintro _ index ⟨rfl, bound⟩
  refine recovers_byte.bind ?_
  rintro _ dc ⟨rfl, smallDc⟩
  refine recovers_byte.bind ?_
  rintro _ fe ⟨rfl, smallFe⟩
  dsimp only
  split
  · exact .throw
  · rename_i few
    refine (pool.recovers_resolve _ _).bind ?_
    rintro _ _ ⟨rfl, name, rfl⟩
    refine .pure ?_
    have registers (nibbles : List Nat) : nibbles.map ofRegister = (nibbles.map UInt16.ofNat).map .register := by
      rw [List.map_map]
      rfl
    rw [Reassembles, registers, assemble_call call, call]
    exact op.assembleCall_nibbles (Nat.not_lt.mp few) smallAg smallDc smallFe bound

/-- Every format that has operands gives back the bytes it read. -/
theorem readOperands_recovers (op : Opcode) (base : UInt32) (pool : ConstantPool)
    (reads : op.format ≠ .f10x ∧ op.format ≠ .f3rc) :
    Recovers (op.readOperands base pool) (op.Reassembles base) := by
  cases format : op.format
  all_goals rw [format] at reads
  case f10x | f3rc => simp at reads
  case f35c => exact op.readOperands_recovers_call base pool format
  all_goals
    unfold readOperands
    rw [format]
  -- The fields are taken up first, in the order they are read in, and compared with what is written at the end.
  case' f10t =>
    refine recovers_byte.bind ?_
    rintro _ first ⟨rfl, _⟩
    refine (recovers_signedField 1).bind ?_
    rintro _ v ⟨rfl, fits⟩
    refine .pure (reassembles_of_all format rfl (fun _ => rfl) ?_)
  case' f11n | f11x | f12x | f20t | f21c | f21h | f21s | f21t | f22b | f22c | f22s | f22t | f22x | f23x | f30t |
      f31c | f31i | f31t | f32x | f51l =>
    refine recovers_secondByte.bind ?_
    rintro _ a ⟨first, rfl, small⟩
  case' f22b =>
    refine recovers_byte.bind ?_
    rintro _ b ⟨rfl, smallB⟩
  case' f23x =>
    refine recovers_byte.bind ?_
    rintro _ b ⟨rfl, smallB⟩
    refine recovers_byte.bind ?_
    rintro _ c ⟨rfl, smallC⟩
  case' f20t | f21s | f21t | f22b | f22s | f22t | f30t | f31i | f31t | f51l =>
    refine (recovers_signedField _).bind ?_
    rintro _ v ⟨rfl, fits⟩
  case' f21c | f21h | f22c | f22x | f31c | f32x =>
    refine (recovers_field _).bind ?_
    rintro _ n ⟨rfl, bound⟩
  case' f21c | f22c | f31c =>
    refine (pool.recovers_resolve _ _).bind ?_
    rintro _ _ ⟨rfl, name, rfl⟩
  case' f32x =>
    refine (recovers_field _).bind ?_
    rintro _ m ⟨rfl, bound'⟩
  case' f20t | f30t | f32x => refine .pure (reassembles_of_second format rfl (fun _ => rfl) ?_)
  case' f11n | f11x | f12x | f21c | f21h | f21s | f21t | f22b | f22c | f22s | f22t | f22x | f23x |
      f31c | f31i | f31t | f51l =>
    refine .pure (reassembles_of_all format rfl (fun _ => rfl) ?_)
  all_goals
    unfold assemble
    rw [format]
    dsimp only [ofRegister, ofLiteral]
  case f10t | f20t | f30t =>
    rw [displacementTo_addressFrom base (fits.widen (by decide))]
    simp [firstUnit]
  case f11n => rw [nibbles_literal small]; rfl
  case f11x => rw [toNat_ofNat_register small]; rfl
  case f12x => rw [nibbles_registers small]; rfl
  case f21c | f31c =>
    rw [toNat_ofNat_register small, toNat_ofNat_index bound (by decide)]
    simp [firstUnit]
  case f22c =>
    rw [nibbles_registers small, toNat_ofNat_index bound (by decide)]
    simp [firstUnit]
  case f21h | f22x =>
    rw [toNat_ofNat_register small, toNat_ofNat_wide bound]
    simp [firstUnit]
  case f21s | f31i | f51l =>
    rw [toNat_ofNat_register small, fits.toInt_ofInt (by decide)]
    simp [firstUnit]
  case f21t | f31t =>
    rw [toNat_ofNat_register small, displacementTo_addressFrom base (fits.widen (by decide))]
    simp [firstUnit]
  case f22b =>
    rw [toNat_ofNat_register small, toNat_ofNat_register smallB, fits.toInt_ofInt (by decide)]
    simp [firstUnit]
  case f22s =>
    rw [nibbles_registers small, fits.toInt_ofInt (by decide)]
    simp [firstUnit]
  case f22t =>
    rw [nibbles_registers small, displacementTo_addressFrom base (fits.widen (by decide))]
    simp [firstUnit]
  case f23x =>
    rw [toNat_ofNat_register small, toNat_ofNat_register smallB, toNat_ofNat_register smallC]
    simp [firstUnit]
  case f32x =>
    rw [toNat_ofNat_wide bound, toNat_ofNat_wide bound']
    simp [firstUnit]

theorem assemble_of_unread {op : Opcode} {base : UInt32} {tail : List UInt8}
    (noFields : op.format = .f10x ∨ op.format = .f3rc) (length : tail.length + 1 = op.format.size) :
    op.assemble base [] = op.format.meaningful (op.value :: tail) := by
  unfold assemble
  rcases noFields with format | format
  all_goals
    rw [format] at length ⊢
    rw [Format.meaningful_of_first length rfl]
    rfl

theorem assemble_of_read {op : Opcode} {base : UInt32} {pool : ConstantPool} {tail : List UInt8}
    {operands : List Operand} (reads : op.format ≠ .f10x ∧ op.format ≠ .f3rc)
    (length : tail.length + 1 = op.format.size) (read : op.operands (op.value :: tail) base pool = .ok operands) :
    op.assemble base operands = op.format.meaningful (op.value :: tail) := by
  obtain ⟨assembled, written, size⟩ := (operands_legal read).assemble_eq_cons
  obtain ⟨rest, run⟩ := run_of_run' read
  obtain ⟨bytes, same, recovered⟩ := op.readOperands_recovers base pool reads _ _ _ run
  -- The bytes that were read are as many as those written, so that nothing is left behind them.
  have enough := op.format.length_meaningful_le (op.value :: bytes.tail)
  have room := op.format.two_le_size
  have total := congrArg List.length same
  rw [← recovered, written, List.length_cons, List.length_cons, List.length_tail] at enough
  rw [List.length_cons, List.length_append] at total
  obtain rfl : rest = [] := List.length_eq_zero_iff.mp (by omega)
  rw [List.append_nil] at same
  rw [recovered, ← same, List.tail_cons]

/-- Operands account for every bit of an instruction that its format does not ignore. They fit in the fields they
are read from, their bytes are those of the instruction with zeros for the ignored bits, and they are read from
these bytes again. -/
theorem assemble_operands (op : Opcode) (unit : List UInt8) (base : UInt32) (pool : ConstantPool)
    {operands : List Operand} (full : unit.length = op.format.size) (first : unit.head? = some op.value)
    (read : op.operands unit base pool = .ok operands) :
    op.Legal base pool operands ∧ op.assemble base operands = op.format.meaningful unit ∧
      op.operands (op.format.meaningful unit) base pool = .ok operands := by
  have legal := operands_legal read
  have written : op.assemble base operands = op.format.meaningful unit := by
    obtain ⟨tail, rfl⟩ := List.head?_eq_some_iff.mp first
    by_cases noFields : op.format = .f10x ∨ op.format = .f3rc
    · rw [operands_of_unread noFields] at read
      cases read
      exact assemble_of_unread noFields full
    · exact assemble_of_read (not_or.mp noFields) full read
  refine ⟨legal, written, ?_⟩
  rw [← written]
  exact legal.operands_assemble

/-- A call of three arguments, with numbers in the two places of registers that it does not use, and a branch with a
number in the byte that it does not use. -/
theorem assemble_operands_call :
    (∃ operands, (Opcode.ofByte 0x6e).operands [0x6e, 0x37, 1, 0, 0x21, 0x93] 0 .placeholder = .ok operands ∧
      operands = [.register 1, .register 2, .register 3, .reference .method 1 "method@1"] ∧
      (Opcode.ofByte 0x6e).assemble 0 operands = [0x6e, 0x30, 1, 0, 0x21, 0x03]) ∧
    ∃ operands, (Opcode.ofByte 0x29).operands [0x29, 0x55, 0xfe, 0xff] 16 .placeholder = .ok operands ∧
      operands = [.target 14] ∧ (Opcode.ofByte 0x29).assemble 16 operands = [0x29, 0, 0xfe, 0xff] := by
  have call := assemble_operands (.ofByte 0x6e) [0x6e, 0x37, 1, 0, 0x21, 0x93] 0 .placeholder rfl rfl rfl
  have branch := assemble_operands (.ofByte 0x29) [0x29, 0x55, 0xfe, 0xff] 16 .placeholder rfl rfl rfl
  exact ⟨⟨_, rfl, rfl, call.2.1⟩, _, rfl, rfl, branch.2.1⟩

end Opcode

end Dalvik
