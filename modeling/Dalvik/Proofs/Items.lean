import Dalvik.Disassembly.Sweep
import Dalvik.Proofs.PayloadScan

namespace Dalvik

theorem Format.size_even (f : Format) : f.size % 2 = 0 := Nat.mul_mod_left f.units 2

theorem Format.two_le_size (f : Format) : 2 ≤ f.size := by
  cases f <;> decide

/-- What decoding an instruction gives once all its bytes are there. -/
def Opcode.instruction (op : Opcode) (offset : Nat) (unit : List UInt8) (base : UInt32) (pool : ConstantPool) :
    Except DecodeError Instruction :=
  match op.operands unit base pool with
  | .ok operands => .ok ⟨offset, op, operands⟩
  | .error fault => .error ⟨fault, [.instruction op.mnemonic offset]⟩

theorem instructionFrom_value (offset : Nat) (first : UInt8) (rest : List UInt8) (base : UInt32)
    (pool : ConstantPool) :
    (instructionFrom offset first rest base pool).value =
      let op := Opcode.ofByte first
      if rest.length + 1 < op.format.size then
        .error ⟨.truncatedInstruction op.mnemonic offset op.format.size (rest.length + 1), []⟩
      else op.instruction offset ((first :: rest).take op.format.size) base pool := by
  by_cases short : rest.length + 1 < (Opcode.ofByte first).format.size
  · have all : (first :: rest).take (Opcode.ofByte first).format.size = first :: rest :=
      List.take_of_length_le (Nat.le_of_lt short)
    simp only [instructionFrom, all, List.length_cons, if_pos short]
  · have full : ¬ ((first :: rest).take (Opcode.ofByte first).format.size).length <
      (Opcode.ofByte first).format.size := by
      rw [List.length_take, List.length_cons]
      omega
    simp only [instructionFrom, if_neg short, if_neg full, Opcode.tracedOperands, Opcode.instruction]
    cases (Opcode.ofByte first).operands ((first :: rest).take (Opcode.ofByte first).format.size) base pool <;> rfl

/-- The item at a byte offset of the code. -/
def itemAt (code : List UInt8) (pc : Nat) (base : UInt32) (pool : ConstantPool) :
    Logged (Except DecodeError Item) :=
  match code.drop pc with
  | [] => ⟨.error ⟨.noInstruction pc code.length, []⟩, []⟩
  | first :: rest => itemFrom pc first rest base pool

/-- A payload block comes before an instruction. -/
theorem itemAt_eq_match (code : List UInt8) (pc : Nat) (base : UInt32) (pool : ConstantPool) :
    itemAt code pc base pool =
      match payloadAt code pc with
      | .error fault => ⟨.error ⟨fault, [.payload pc]⟩, []⟩
      | .ok (some (kind, length)) => ⟨.ok (.payload ⟨pc, length, kind⟩), [.skipping kind length pc]⟩
      | .ok none =>
        ⟨(instructionAt code pc base pool).value.map .instruction, (instructionAt code pc base pool).log⟩ := by
  unfold itemAt payloadAt instructionAt
  cases code.drop pc with
  | nil => rfl
  | cons first rest =>
    rcases found : scanPayload (first :: rest) with fault | (_ | ⟨kind, length⟩) <;> simp only [itemFrom, found]

theorem itemAt_value (code : List UInt8) (pc : Nat) (base : UInt32) (pool : ConstantPool) :
    (itemAt code pc base pool).value =
      match payloadAt code pc with
      | .error fault => .error ⟨fault, [.payload pc]⟩
      | .ok (some (kind, length)) => .ok (.payload ⟨pc, length, kind⟩)
      | .ok none => (instructionAt code pc base pool).value.map .instruction := by
  rw [itemAt_eq_match]
  rcases payloadAt code pc with fault | (_ | ⟨kind, length⟩) <;> rfl

theorem itemAt_payload {code : List UInt8} {pc : Nat} {kind : PayloadKind} {length : Nat} (base : UInt32)
    (pool : ConstantPool) (block : payloadAt code pc = .ok (some (kind, length))) :
    itemAt code pc base pool = ⟨.ok (.payload ⟨pc, length, kind⟩), [.skipping kind length pc]⟩ := by
  rw [itemAt_eq_match, block]

/-- A position holds a whole block or the bytes of a whole instruction, or the code is cut short there. -/
theorem itemAt_cases (code : List UInt8) (pc : Nat) (base : UInt32) (pool : ConstantPool) :
    (∃ kind length, payloadAt code pc = .ok (some (kind, length)) ∧
      (itemAt code pc base pool).value = .ok (.payload ⟨pc, length, kind⟩)) ∨
    (∃ first rest, code.drop pc = first :: rest ∧ IsPlain (first :: rest) ∧
      (Opcode.ofByte first).format.size ≤ rest.length + 1 ∧
      (itemAt code pc base pool).value = ((Opcode.ofByte first).instruction pc
        ((first :: rest).take (Opcode.ofByte first).format.size) base pool).map .instruction) ∨
    ∃ e, (itemAt code pc base pool).value = .error e ∧ e.kind = .truncatedBuffer := by
  cases found : payloadAt code pc with
  | error fault =>
    refine Or.inr (Or.inr ⟨⟨fault, [.payload pc]⟩, ?_, scanPayload_error_kind found⟩)
    rw [itemAt_value, found]
  | ok block =>
    cases block with
    | some block =>
      refine Or.inl ⟨block.1, block.2, rfl, ?_⟩
      rw [itemAt_value, found]
    | none =>
      right
      rw [itemAt_value, found]
      cases suffix : code.drop pc with
      | nil =>
        simp only [instructionAt, suffix]
        exact Or.inr ⟨_, rfl, rfl⟩
      | cons first rest =>
        have plain : IsPlain (first :: rest) := isPlain_iff.mpr (by rw [← suffix]; exact found)
        simp only [instructionAt, suffix, instructionFrom_value]
        split
        · exact Or.inr ⟨_, rfl, rfl⟩
        · rename_i full
          exact Or.inl ⟨first, rest, rfl, plain, Nat.not_lt.mp full, rfl⟩

/-- What an item was decoded from: a whole block, or the bytes of an instruction that opens no block. -/
theorem itemAt_ok_cases {code : List UInt8} {pc : Nat} {base : UInt32} {pool : ConstantPool} {item : Item}
    (found : (itemAt code pc base pool).value = .ok item) :
    (∃ kind length, payloadAt code pc = .ok (some (kind, length)) ∧ item = .payload ⟨pc, length, kind⟩) ∨
    ∃ first rest operands, code.drop pc = first :: rest ∧ IsPlain (first :: rest) ∧
      (Opcode.ofByte first).format.size ≤ rest.length + 1 ∧
        item = .instruction ⟨pc, Opcode.ofByte first, operands⟩ := by
  rcases itemAt_cases code pc base pool with ⟨kind, length, block, value⟩ |
    ⟨first, rest, suffix, plain, full, value⟩ | ⟨e, value, _⟩
  · rw [value] at found
    cases found
    exact Or.inl ⟨kind, length, block, rfl⟩
  · rw [value, Opcode.instruction] at found
    split at found
    · rename_i operands _
      cases found
      exact Or.inr ⟨first, rest, operands, suffix, plain, full, rfl⟩
    · cases found
  · rw [value] at found
    cases found

/-- An item lies inside the code, is not empty and ends on a code unit. -/
theorem itemAt_bounds {code : List UInt8} {pc : Nat} {base : UInt32} {pool : ConstantPool} {item : Item}
    (found : (itemAt code pc base pool).value = .ok item) :
    item.start = pc ∧ 2 ≤ item.size ∧ item.size % 2 = 0 ∧ pc + item.size ≤ code.length := by
  rcases itemAt_ok_cases found with ⟨kind, length, block, rfl⟩ | ⟨first, rest, operands, suffix, _, full, rfl⟩
  · obtain ⟨room, even, fits⟩ := scanPayload_bounds block
    rw [List.length_drop] at fits
    exact ⟨rfl, show 2 ≤ length by omega, even, show pc + length ≤ code.length by omega⟩
  · have whole := congrArg List.length suffix
    rw [List.length_drop, List.length_cons] at whole
    refine ⟨rfl, Format.two_le_size _, Format.size_even _, ?_⟩
    simp only [Item.size, Instruction.size, Instruction.format]
    omega

theorem instructionFrom_congr {offset : Nat} {first : UInt8} {rest other : List UInt8} {base : UInt32}
    {pool : ConstantPool} (same : (first :: other).take (Opcode.ofByte first).format.size =
      (first :: rest).take (Opcode.ofByte first).format.size) :
    instructionFrom offset first other base pool = instructionFrom offset first rest base pool := by
  simp only [instructionFrom, same]

theorem itemAt_plain_congr {code other : List UInt8} {pc : Nat} {base : UInt32} {pool : ConstantPool}
    {first : UInt8} {rest : List UInt8} (suffix : code.drop pc = first :: rest) (plain : IsPlain (first :: rest))
    (same : (other.drop pc).take (Opcode.ofByte first).format.size =
      (first :: rest).take (Opcode.ofByte first).format.size) :
    itemAt other pc base pool = itemAt code pc base pool := by
  obtain ⟨n, size⟩ : ∃ n, (Opcode.ofByte first).format.size = n + 2 :=
    ⟨(Opcode.ofByte first).format.size - 2, by have := (Opcode.ofByte first).format.two_le_size; omega⟩
  rw [size] at same
  have otherPlain := plain.congr same
  cases otherSuffix : other.drop pc with
  | nil => simp [otherSuffix] at same
  | cons otherFirst tail =>
    rw [otherSuffix] at same otherPlain
    obtain rfl : otherFirst = first := by
      simp only [List.take_succ_cons, List.cons.injEq] at same
      exact same.1
    rw [← size] at same
    simp only [itemAt, suffix, otherSuffix, itemFrom, plain.scanPayload, otherPlain.scanPayload,
      instructionFrom_congr same]

/-- An item is decoded from its own bytes, whatever follows them. -/
theorem itemAt_congr {code other : List UInt8} {pc : Nat} {base : UInt32} {pool : ConstantPool} {item : Item}
    (found : (itemAt code pc base pool).value = .ok item)
    (same : (other.drop pc).take item.size = (code.drop pc).take item.size) :
    itemAt other pc base pool = itemAt code pc base pool := by
  rcases itemAt_ok_cases found with ⟨kind, length, block, rfl⟩ | ⟨first, rest, operands, suffix, plain, _, rfl⟩
  · have otherBlock : payloadAt other pc = .ok (some (kind, length)) := scanPayload_congr block same
    rw [itemAt_payload base pool block, itemAt_payload base pool otherBlock]
  · rw [suffix] at same
    exact itemAt_plain_congr suffix plain same

/-- Only a fault of a code cut short can go away when code is added. -/
theorem itemAt_append {code : List UInt8} {pc : Nat} {base : UInt32} {pool : ConstantPool}
    (whole : ∀ e, (itemAt code pc base pool).value = .error e → e.kind ≠ .truncatedBuffer) (more : List UInt8) :
    itemAt (code ++ more) pc base pool = itemAt code pc base pool := by
  rcases itemAt_cases code pc base pool with ⟨kind, length, _, value⟩ |
    ⟨first, rest, suffix, plain, full, _⟩ | ⟨e, value, isCut⟩
  · obtain ⟨_, _, _, inside⟩ := itemAt_bounds value
    refine itemAt_congr value ?_
    rw [List.drop_append_of_le_length (by omega), List.take_append_of_le_length (by rw [List.length_drop]; omega)]
  · have inside : pc ≤ code.length := by
      have shorter := congrArg List.length suffix
      rw [List.length_drop, List.length_cons] at shorter
      omega
    refine itemAt_plain_congr suffix plain ?_
    rw [List.drop_append_of_le_length inside, suffix, List.take_append_of_le_length (by simpa using full)]
  · exact absurd isCut (whole e value)

end Dalvik
