import Dalvik.Proofs.Fields

namespace Dalvik

open Reader

namespace Operand

@[simp] theorem ofRegister_toNat (r : UInt16) : ofRegister r.toNat = register r := by
  simp [ofRegister]

@[simp] theorem ofLiteral_toInt (v : Int64) : ofLiteral v.toInt = literal v := by
  simp [ofLiteral]

theorem ofRegister_low {r : UInt16} (small : r.toNat < 16) (high : Nat) :
    ofRegister ((r.toNat + 16 * high) % 16) = register r := by
  rw [show (r.toNat + 16 * high) % 16 = r.toNat by omega, ofRegister_toNat]

theorem ofRegister_high {low : Nat} (small : low < 16) (r : UInt16) :
    ofRegister ((low + 16 * r.toNat) / 16) = register r := by
  rw [show (low + 16 * r.toNat) / 16 = r.toNat by omega, ofRegister_toNat]

/-- The high nibble of a byte in two's complement. -/
theorem ofLiteral_high {low : Nat} {v : Int64} (small : low < 16) (lower : -8 ≤ v.toInt) (upper : v.toInt < 8) :
    ofLiteral (Int.bmod ((low + 16 * (v.toInt % 16).toNat) / 16 : Nat) 16) = literal v := by
  have residue : (((low + 16 * (v.toInt % 16).toNat) / 16 : Nat) : Int) = v.toInt % 16 := by omega
  have same : Int.bmod (v.toInt % 16) 16 = v.toInt := by
    rw [Int.bmod_def]
    omega
  rw [residue, same, ofLiteral_toInt]

@[simp] theorem addressFrom_displacementTo (base : UInt32) (address : Int64) :
    addressFrom base (displacementTo base address) = address := by
  have cast : Int64.ofNat base.toNat = Int64.ofInt base.toNat := rfl
  rw [addressFrom, displacementTo, cast, ← Int64.ofInt_add]
  rw [show (base.toNat : Int) + (address.toInt - base.toNat) = address.toInt by omega, Int64.ofInt_toInt]

end Operand

open Operand

namespace Opcode

theorem takes_firstUnit (op : Opcode) {second : Nat} (small : second < 256) :
    Takes secondByte (op.firstUnit second) second :=
  (takes_byte op.value).bind (takes_ofNat small)

theorem Names.resolve {op : Opcode} {pool : ConstantPool} {width : Nat} {kind : ReferenceKind} {index : UInt32}
    {name : String} (names : op.Names pool width kind index name) :
    pool.resolve op.reference (UInt32.ofNat index.toNat) = .ok (.reference kind index name) := by
  obtain ⟨rfl, _, found⟩ := names
  have isTable : op.reference ≠ .none := by
    intro none
    rw [none] at found
    cases found
  rw [UInt32.ofNat_toNat, ConstantPool.resolve, if_neg isTable, found]

/-- The index field of a reference and the look-up that follows it. -/
theorem Names.takes {op : Opcode} {pool : ConstantPool} {width : Nat} {kind : ReferenceKind} {index : UInt32}
    {name : String} (names : op.Names pool width kind index name) (arrange : Operand → List Operand) :
    Takes (field width >>= fun n => liftM (pool.resolve op.reference (UInt32.ofNat n)) >>= fun entry =>
        pure (arrange entry))
      (littleEndianBytes width index.toNat) (arrange (.reference kind index name)) := by
  rw [← List.append_nil (littleEndianBytes width index.toNat)]
  exact (takes_littleEndianBytes names.2.1).bind ((Takes.lift names.resolve).last arrange)

theorem assemble_call {op : Opcode} (call : op.format = .f35c) (base : UInt32) (registers : List UInt16)
    (kind : ReferenceKind) (index : UInt32) (name : String) :
    op.assemble base (registers.map .register ++ [.reference kind index name]) =
      op.assembleCall registers index := by
  have registersOnly :
      (registers.map Operand.register ++ [Operand.reference kind index name]).filterMap register? = registers := by
    simp [List.filterMap_map, Function.comp_def, register?]
  unfold assemble
  rw [call]
  dsimp only
  rw [List.getLast?_concat, registersOnly]

/-- The register at a place of an argument list; places that are not used hold zero. -/
def argument (registers : List UInt16) (n : Nat) : Nat := (registers.getD n 0).toNat

theorem argument_lt {registers : List UInt16} (small : ∀ r ∈ registers, r.toNat < 16) (n : Nat) :
    argument registers n < 16 := by
  rw [argument, List.getD_eq_getElem?_getD]
  cases present : registers[n]? with
  | none => decide
  | some r => exact small r (List.mem_of_getElem? present)

/-- The nibbles in the order in which a call lists its arguments, cut to their number. -/
theorem ofRegister_arguments {registers : List UInt16} (few : registers.length ≤ 5)
    (small : ∀ r ∈ registers, r.toNat < 16) :
    ([(argument registers 0 + 16 * argument registers 1) % 16,
        (argument registers 0 + 16 * argument registers 1) / 16,
        (argument registers 2 + 16 * argument registers 3) % 16,
        (argument registers 2 + 16 * argument registers 3) / 16,
        (argument registers 4 + 16 * registers.length) % 16].take registers.length).map ofRegister =
      registers.map Operand.register := by
  have low (a b : Nat) : (argument registers a + 16 * b) % 16 = argument registers a := by
    have bound := argument_lt small a
    omega
  have high (a b : Nat) : (argument registers a + 16 * b) / 16 = b := by
    have bound := argument_lt small a
    omega
  simp only [low, high]
  match registers, few with
  | [], _ | [_], _ | [_, _], _ | [_, _, _], _ | [_, _, _, _], _ | [_, _, _, _, _], _ => simp [argument]

theorem assembleCall_eq (op : Opcode) (registers : List UInt16) (index : UInt32) :
    op.assembleCall registers index =
      op.firstUnit (argument registers 4 + 16 * registers.length) ++ (littleEndianBytes 2 index.toNat ++
        ([UInt8.ofNat (argument registers 0 + 16 * argument registers 1)] ++
          [UInt8.ofNat (argument registers 2 + 16 * argument registers 3)])) :=
  List.append_assoc _ _ _

theorem operands_assembleCall {op : Opcode} {base : UInt32} {pool : ConstantPool} {registers : List UInt16}
    {kind : ReferenceKind} {index : UInt32} {name : String} (call : op.format = .f35c)
    (few : registers.length ≤ 5) (small : ∀ r ∈ registers, r.toNat < 16) (names : op.Names pool 2 kind index name) :
    op.operands (op.assembleCall registers index) base pool =
      .ok (registers.map .register ++ [.reference kind index name]) := by
  have bound := argument_lt small
  have fifth := bound 4
  have count : (argument registers 4 + 16 * registers.length) / 16 = registers.length := by omega
  rw [assembleCall_eq, ← List.append_nil [UInt8.ofNat (argument registers 2 + 16 * argument registers 3)]]
  simp only [Opcode.operands, readOperands, call]
  refine ((op.takes_firstUnit (by omega)).bind ((takes_littleEndianBytes names.2.1).bind
    ((takes_nibbles (bound 0) (bound 1)).bind ((takes_nibbles (bound 2) (bound 3)).bind ?_)))).gives rfl
  rw [count, if_neg (by omega), ofRegister_arguments few small]
  exact (Takes.lift names.resolve).last _

/-- Operands that fit in the fields of their format are read back from them. -/
theorem Legal.operands_assemble {op : Opcode} {base : UInt32} {pool : ConstantPool} {operands : List Operand}
    (legal : op.Legal base pool operands) : op.operands (op.assemble base operands) base pool = .ok operands := by
  unfold Legal at legal
  cases format : op.format
  all_goals rw [format] at legal
  case f35c =>
    obtain ⟨registers, kind, index, name, rfl, few, small, names⟩ := legal
    rw [assemble_call format, operands_assembleCall format few small names]
  all_goals unfold Opcode.operands readOperands assemble
  all_goals rw [format]
  case f10x | f3rc =>
    rw [legal]
    rfl
  case f10t =>
    obtain ⟨t, rfl, fits⟩ := legal
    exact ((takes_byte op.value).bind ((takes_signedBytes fits).last _)).gives (by simp)
  case f20t | f30t =>
    obtain ⟨t, rfl, fits⟩ := legal
    exact ((op.takes_firstUnit (by decide)).bind ((takes_signedBytes fits).last _)).gives (by simp)
  case f11n =>
    obtain ⟨a, v, rfl, small, lower, upper⟩ := legal
    refine ((op.takes_firstUnit (by omega)).last _).gives ?_
    rw [ofRegister_low small, ofLiteral_high small lower upper]
  case f11x =>
    obtain ⟨a, rfl, small⟩ := legal
    exact ((op.takes_firstUnit small).last _).gives (by simp)
  case f12x =>
    obtain ⟨a, b, rfl, first, second⟩ := legal
    refine ((op.takes_firstUnit (by omega)).last _).gives ?_
    rw [ofRegister_low first, ofRegister_high first]
  case f21c | f31c =>
    obtain ⟨a, kind, index, name, rfl, small, names⟩ := legal
    exact ((op.takes_firstUnit small).bind (names.takes _)).gives (by simp)
  case f21h =>
    obtain ⟨a, bits, wide, rfl, small, isWide⟩ := legal
    refine ((op.takes_firstUnit small).bind ((takes_littleEndianBytes bits.toNat_lt).last _)).gives ?_
    simp [isWide]
  case f21s | f21t | f31i | f31t =>
    obtain ⟨a, v, rfl, small, fits⟩ := legal
    exact ((op.takes_firstUnit small).bind ((takes_signedBytes fits).last _)).gives (by simp)
  case f51l =>
    obtain ⟨a, v, rfl, small⟩ := legal
    exact ((op.takes_firstUnit small).bind ((takes_signedBytes (fitsSigned_eight v)).last _)).gives (by simp)
  case f22b =>
    obtain ⟨a, b, v, rfl, first, second, fits⟩ := legal
    exact ((op.takes_firstUnit first).bind ((takes_ofNat second).bind
      ((takes_signedBytes fits).last _))).gives (by simp)
  case f22c =>
    obtain ⟨a, b, kind, index, name, rfl, first, second, names⟩ := legal
    refine ((op.takes_firstUnit (by omega)).bind (names.takes _)).gives ?_
    rw [ofRegister_low first, ofRegister_high first]
  case f22s | f22t =>
    obtain ⟨a, b, v, rfl, first, second, fits⟩ := legal
    refine ((op.takes_firstUnit (by omega)).bind ((takes_signedBytes fits).last _)).gives ?_
    simp only [ofRegister_low first, ofRegister_high first, ofLiteral_toInt, addressFrom_displacementTo]
  case f22x =>
    obtain ⟨a, b, rfl, small⟩ := legal
    exact ((op.takes_firstUnit small).bind ((takes_littleEndianBytes b.toNat_lt).last _)).gives (by simp)
  case f23x =>
    obtain ⟨a, b, c, rfl, first, second, third⟩ := legal
    exact ((op.takes_firstUnit first).bind ((takes_ofNat second).bind ((takes_ofNat third).last _))).gives (by simp)
  case f32x =>
    obtain ⟨a, b, rfl⟩ := legal
    dsimp only
    rw [List.append_assoc]
    exact ((op.takes_firstUnit (by decide)).bind ((takes_littleEndianBytes a.toNat_lt).bind
      ((takes_littleEndianBytes b.toNat_lt).last _))).gives (by simp)

/-- The bytes of a legal instruction start with the opcode's value and are as many as its format says. -/
theorem Legal.assemble_eq_cons {op : Opcode} {base : UInt32} {pool : ConstantPool} {operands : List Operand}
    (legal : op.Legal base pool operands) :
    ∃ tail, op.assemble base operands = op.value :: tail ∧ tail.length + 1 = op.format.size := by
  unfold Legal at legal
  cases format : op.format
  all_goals rw [format] at legal
  case f35c =>
    obtain ⟨registers, kind, index, name, rfl, _⟩ := legal
    rw [assemble_call format]
    exact ⟨_, rfl, rfl⟩
  case' f10t | f11x | f20t | f30t => obtain ⟨a, rfl, _⟩ := legal
  case' f32x => obtain ⟨a, b, rfl⟩ := legal
  case' f11n | f12x | f21s | f21t | f22x | f31i | f31t | f51l => obtain ⟨a, b, rfl, _⟩ := legal
  case' f21h | f22b | f22s | f22t | f23x => obtain ⟨a, b, c, rfl, _⟩ := legal
  case' f21c | f31c => obtain ⟨a, kind, index, name, rfl, _⟩ := legal
  case' f22c => obtain ⟨a, b, kind, index, name, rfl, _⟩ := legal
  all_goals
    unfold assemble
    rw [format]
    exact ⟨_, rfl, rfl⟩

end Opcode

end Dalvik
