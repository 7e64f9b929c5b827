import Dalvik.Assembler.Program
import Dalvik.Proofs.OperandAssembly
import Dalvik.Proofs.PayloadMap

namespace Dalvik

open Reader

namespace Opcode

theorem value_ofByte (value : UInt8) : (ofByte value).value = value := by
  unfold ofByte
  cases found : defined.find? (·.value = value) with
  | none => rfl
  | some op =>
    have same := List.find?_some found
    exact of_decide_eq_true same

theorem ofByte_value {op : Opcode} (member : op ∈ table) : ofByte op.value = op := by
  obtain ⟨n, _, rfl⟩ := List.mem_map.mp member
  rw [value_ofByte]

theorem ofByte_mem_table (value : UInt8) : ofByte value ∈ table := by
  refine List.mem_map.mpr ⟨value.toNat, List.mem_range.mpr value.toNat_lt, ?_⟩
  rw [UInt8.ofNat_toNat]

/-- The zero byte opens a payload block only with a marker behind it, and the instruction that starts with it has
none. -/
theorem Legal.isPlain {op : Opcode} {base : UInt32} {pool : ConstantPool} {operands : List Operand}
    (member : op ∈ table) (legal : op.Legal base pool operands) (rest : List UInt8) :
    IsPlain (op.assemble base operands ++ rest) := by
  intro kind header opens
  obtain ⟨tail, bytes, _⟩ := legal.assemble_eq_cons
  rw [bytes] at opens
  obtain ⟨zero, marker⟩ := List.cons.inj opens
  have nop : op = ofByte 0 := by rw [← zero, ofByte_value member]
  subst nop
  have plainNop : (ofByte 0).assemble base operands = [0, 0] := rfl
  rw [plainNop] at bytes
  cases bytes
  cases kind <;> cases marker

end Opcode

namespace PayloadBlock

theorem length_flatMap_words {α : Type} (word : α → Int32) (entries : List α) :
    (entries.flatMap fun entry => wordBytes (word entry)).length = 4 * entries.length := by
  induction entries with
  | nil => rfl
  | cons entry entries ih =>
    rw [List.flatMap_cons, List.length_append, ih, wordBytes, signedBytes_length, List.length_cons]
    omega

/-- The header announces the number of bytes that the block has. -/
theorem Legal.takes_readLength {block : PayloadBlock} (legal : block.Legal) :
    ∃ header tail, block.body = header ++ tail ∧ Takes block.kind.readLength header block.assemble.length := by
  cases block with
  | packedSwitch firstKey targets =>
    have total : (packedSwitch firstKey targets).assemble.length = (targets.length * 2 + 4) * 2 := by
      simp only [assemble, body, wordBytes, List.length_cons, List.length_append, littleEndianBytes_length,
        signedBytes_length, length_flatMap_words fun target => target]
      omega
    rw [total]
    exact ⟨_, _, List.append_assoc _ _ _, (takes_littleEndianBytes legal).last _⟩
  | sparseSwitch entries =>
    have total : (sparseSwitch entries).assemble.length = (entries.length * 4 + 2) * 2 := by
      simp only [assemble, body, List.length_cons, List.length_append, littleEndianBytes_length,
        length_flatMap_words]
      omega
    rw [total]
    exact ⟨_, _, List.append_assoc _ _ _, (takes_littleEndianBytes legal).last _⟩
  | arrayData width count data =>
    have whole : data.length = width.toNat * count.toNat := legal
    have total : (arrayData width count data).assemble.length = 8 + (width.toNat * count.toNat + 1) / 2 * 2 := by
      simp only [assemble, body, List.length_cons, List.length_append, littleEndianBytes_length,
        List.length_replicate, whole]
      omega
    rw [total]
    exact ⟨_, _, List.append_assoc _ _ _, (takes_littleEndianBytes width.toNat_lt).bind
      ((takes_littleEndianBytes count.toNat_lt).last _)⟩

theorem Legal.scanPayload_assemble {block : PayloadBlock} (legal : block.Legal) (rest : List UInt8) :
    scanPayload (block.assemble ++ rest) = .ok (some (block.kind, block.assemble.length)) := by
  obtain ⟨header, tail, body, takes⟩ := legal.takes_readLength
  have announced : block.kind.readLength.run' (block.body ++ rest) = .ok block.assemble.length := by
    rw [body, List.append_assoc]
    exact takes.run' (tail ++ rest)
  have opened : block.assemble ++ rest = 0 :: block.kind.marker :: (block.body ++ rest) := rfl
  rw [opened, scanPayload_block, announced]
  refine if_neg ?_
  simp only [assemble, List.length_append, List.length_cons]
  omega

end PayloadBlock

namespace Statement

/-- The item that a statement becomes at an offset. -/
def item (offset : Nat) : Statement → Item
  | instruction op operands => .instruction ⟨offset, op, operands⟩
  | payload block => .payload ⟨offset, block.assemble.length, block.kind⟩

variable {base : UInt32} {pool : ConstantPool} {code rest : List UInt8} {pc : Nat}

/-- A statement is read back where its bytes stand. -/
theorem Legal.itemAt_assemble {s : Statement} (legal : s.Legal base pool)
    (suffix : code.drop pc = s.assemble base ++ rest) : (itemAt code pc base pool).value = .ok (s.item pc) := by
  cases s with
  | payload block =>
    have scanned : payloadAt code pc = .ok (some (block.kind, block.assemble.length)) := by
      rw [payloadAt, suffix]
      exact PayloadBlock.Legal.scanPayload_assemble legal rest
    rw [itemAt_value, scanned]
    rfl
  | instruction op operands =>
    obtain ⟨member, legal⟩ := legal
    obtain ⟨tail, bytes, size⟩ := legal.assemble_eq_cons
    have plain : payloadAt code pc = .ok none := by
      rw [payloadAt, suffix]
      exact (legal.isPlain member rest).scanPayload
    have cons : code.drop pc = op.value :: (tail ++ rest) := by
      rw [suffix, assemble, bytes, List.cons_append]
    have unit : (op.value :: (tail ++ rest)).take op.format.size = op.assemble base operands := by
      rw [← List.cons_append, ← bytes]
      exact List.take_left' (by rw [bytes, List.length_cons, size])
    have full : ¬ (tail ++ rest).length + 1 < op.format.size := by
      rw [List.length_append]
      omega
    rw [itemAt_value, plain]
    simp only [instructionAt, cons, instructionFrom_value, Opcode.ofByte_value member, if_neg full, unit,
      Opcode.instruction, legal.operands_assemble]
    rfl

theorem Legal.size_item {s : Statement} (legal : s.Legal base pool) (offset : Nat) :
    (s.item offset).size = (s.assemble base).length := by
  cases s with
  | payload block => rfl
  | instruction op operands =>
    obtain ⟨tail, bytes, size⟩ := legal.2.assemble_eq_cons
    rw [assemble, bytes, List.length_cons, size]
    rfl

end Statement

/-- The items of a program whose first statement stands at `offset`: each starts where the one before it ends. -/
def layout (base : UInt32) (offset : Nat) : List Statement → List Item
  | [] => []
  | s :: program => s.item offset :: layout base (offset + (s.assemble base).length) program

theorem walk_assemble {base : UInt32} {pool : ConstantPool} {program : List Statement} {code : List UInt8}
    {pc : Nat} (legal : ∀ s ∈ program, s.Legal base pool) (inside : pc ≤ code.length)
    (suffix : code.drop pc = assemble base program) :
    Walk code base pool pc (layout base pc program) code.length := by
  induction program generalizing pc with
  | nil =>
    have past := List.drop_eq_nil_iff.mp suffix
    obtain rfl : pc = code.length := by omega
    exact .stop
  | cons s program ih =>
    obtain ⟨here, later⟩ := List.forall_mem_cons.mp legal
    have split : code.drop pc = s.assemble base ++ assemble base program := suffix
    have found := here.itemAt_assemble split
    have fits := (itemAt_bounds found).2.2.2
    refine .next found ?_
    rw [here.size_item] at fits ⊢
    refine ih later fits ?_
    rw [← List.drop_drop, split, List.drop_left]

/-- A program is decoded from its bytes: the instructions with their operands and the payload blocks, each at the
sum of the lengths before it. -/
theorem disassemble_assemble (base : UInt32) (pool : ConstantPool) (program : List Statement)
    (legal : ∀ s ∈ program, s.Legal base pool) :
    ∃ d, (disassemble (assemble base program) base pool).value = .ok d ∧
      d.instructions = (layout base 0 program).filterMap Item.instruction? ∧
      d.payloads = (layout base 0 program).filterMap Item.payload? := by
  have walk : Walk (assemble base program) base pool 0 (layout base 0 program) (assemble base program).length :=
    walk_assemble legal (Nat.zero_le _) rfl
  exact ⟨_, walk.disassemble_ok, rfl, walk.payloads_ofItems⟩

/-- A call with five arguments, a branch back, a `nop` and two payload blocks, of which one is padded. -/
def mixedProgram : List Statement :=
  [.instruction (.ofByte 0x6e) [.register 1, .register 2, .register 3, .register 4, .register 15,
      .reference .method 7 "method@7"],
   .instruction (.ofByte 0x28) [.target (-6)],
   .instruction (.ofByte 0x00) [],
   .payload (.packedSwitch (-1) [3, -4]),
   .payload (.arrayData 1 3 [1, 2, 3])]

theorem mixedProgram_legal : ∀ s ∈ mixedProgram, s.Legal 2 .placeholder := by
  have call : (Opcode.ofByte 0x6e).Legal 2 .placeholder
      [.register 1, .register 2, .register 3, .register 4, .register 15, .reference .method 7 "method@7"] :=
    ⟨[1, 2, 3, 4, 15], .method, 7, "method@7", rfl, by decide, by simp, rfl, by decide, by cbv⟩
  have branch : (Opcode.ofByte 0x28).Legal 2 .placeholder [.target (-6)] := ⟨-6, rfl, by decide⟩
  have nop : (Opcode.ofByte 0x00).Legal 2 .placeholder [] := rfl
  have switch : (PayloadBlock.packedSwitch (-1) [3, -4]).Legal := show 2 < 0x10000 by decide
  have array : (PayloadBlock.arrayData 1 3 [1, 2, 3]).Legal := rfl
  simp only [mixedProgram, List.forall_mem_cons, Statement.Legal, Opcode.ofByte_mem_table, true_and]
  refine ⟨call, branch, nop, switch, array, ?_⟩
  intro s member
  cases member

theorem disassemble_mixedProgram :
    (∀ s ∈ mixedProgram, s.Legal 2 .placeholder) ∧
      ∃ d, (disassemble (assemble 2 mixedProgram) 2 .placeholder).value = .ok d ∧
        d.instructions = [⟨0, .ofByte 0x6e, [.register 1, .register 2, .register 3, .register 4, .register 15,
            .reference .method 7 "method@7"]⟩, ⟨6, .ofByte 0x28, [.target (-6)]⟩, ⟨8, .ofByte 0x00, []⟩] ∧
        d.payloads = [⟨10, 16, .packedSwitch⟩, ⟨26, 12, .arrayData⟩] := by
  obtain ⟨d, run, instructions, payloads⟩ := disassemble_assemble 2 .placeholder mixedProgram mixedProgram_legal
  refine ⟨mixedProgram_legal, d, run, ?_, ?_⟩
  · rw [instructions]
    rfl
  · rw [payloads]
    rfl

end Dalvik
