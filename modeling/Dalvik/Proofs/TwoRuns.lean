import Dalvik.Proofs.Walk

namespace Dalvik

open Reader Operand

/-- How operands that were read with one base and pool become those read with others. Only addresses and references
differ, and only a reference can be missing. -/
structure Revision (base base' : UInt32) (pool pool' : ConstantPool) where
  revise : Operand → Except Fault Operand
  register : ∀ number, revise (.register number) = .ok (.register number)
  literal : ∀ value, revise (.literal value) = .ok (.literal value)
  high : ∀ bits wide, revise (.high bits wide) = .ok (.high bits wide)
  target : ∀ displacement,
    revise (.target (addressFrom base displacement)) = .ok (.target (addressFrom base' displacement))
  farTarget : ∀ displacement,
    revise (.farTarget (addressFrom base displacement)) = .ok (.farTarget (addressFrom base' displacement))
  resolve : ∀ kind index, pool'.resolve kind index = pool.resolve kind index >>= revise

namespace Item

/-- The item with its instruction changed; a payload block stays as it is. -/
def mapInstruction (change : Instruction → Instruction) : Item → Item
  | instruction i => instruction (change i)
  | payload span => payload span

theorem size_mapInstruction {change : Instruction → Instruction} (opcodes : ∀ i, (change i).opcode = i.opcode)
    (item : Item) : (item.mapInstruction change).size = item.size := by
  cases item with
  | instruction i => simp only [mapInstruction, size, Instruction.size, Instruction.format, opcodes]
  | payload span => rfl

end Item

theorem Disassembly.ofItems_mapInstruction (change : Instruction → Instruction) (items : List Item) :
    ofItems (items.map (Item.mapInstruction change)) =
      { ofItems items with instructions := (ofItems items).instructions.map change } := by
  have instructions : (items.map (Item.mapInstruction change)).filterMap Item.instruction? =
      (items.filterMap Item.instruction?).map change := by
    rw [List.filterMap_map, List.map_filterMap]
    congr 1
    funext item
    cases item <;> rfl
  have payloads : (items.map (Item.mapInstruction change)).filterMap Item.payload? =
      items.filterMap Item.payload? := by
    rw [List.filterMap_map]
    congr 1
    funext item
    cases item <;> rfl
  simp only [ofItems, instructions, payloads]

theorem Reader.liftM_ok {α : Type} (value : α) :
    (liftM (Except.ok value : Except Fault α) : Reader α) = pure value := rfl

namespace Revision

variable {base base' : UInt32} {pool pool' : ConstantPool} (r : Revision base base' pool pool')

theorem mapM_registers (numbers : List Nat) :
    (numbers.map ofRegister).mapM r.revise = .ok (numbers.map ofRegister) := by
  induction numbers with
  | nil => rfl
  | cons n numbers ih =>
    rw [List.map_cons, List.mapM_cons, ofRegister, r.register, ih]
    rfl

/-- In every format the same fields are read, and the argument count is checked before the reference is looked
up. -/
theorem readOperands_eq (op : Opcode) :
    op.readOperands base' pool' = op.readOperands base pool >>= fun operands => liftM (operands.mapM r.revise) := by
  unfold Opcode.readOperands
  cases op.format
  all_goals
    simp only [bind_assoc, pure_bind, List.mapM_cons, List.mapM_nil, ofRegister, ofLiteral, r.register, r.literal,
      r.high, r.target, r.farTarget, r.resolve, liftM_bind, liftM_pure, liftM_ok]
  -- The list of arguments is as long as the count says, so the simplifier does not see its elements.
  case f35c =>
    refine bind_congr fun ag => bind_congr fun index => bind_congr fun dc => bind_congr fun fe => ?_
    split
    · rfl
    · simp only [bind_assoc, pure_bind, List.mapM_append, List.mapM_cons, List.mapM_nil, r.mapM_registers,
        liftM_bind, liftM_pure, liftM_ok]

theorem operands_eq (op : Opcode) (unit : List UInt8) :
    op.operands unit base' pool' = op.operands unit base pool >>= fun operands => operands.mapM r.revise := by
  unfold Opcode.operands
  rw [r.readOperands_eq op, StateT.run'_eq, StateT.run'_eq, StateT.run_bind]
  rcases (op.readOperands base pool).run unit with fault | ⟨operands, rest⟩
  · rfl
  · show Prod.fst <$> (liftM (operands.mapM r.revise) : Reader (List Operand)).run rest = operands.mapM r.revise
    cases operands.mapM r.revise <;> rfl

/-- What becomes of a whole instruction. -/
def instruction (i : Instruction) : Except DecodeError Instruction :=
  match i.operands.mapM r.revise with
  | .ok operands => .ok { i with operands := operands }
  | .error fault => .error ⟨fault, [.instruction i.mnemonic i.offset]⟩

theorem instruction_eq (op : Opcode) (offset : Nat) (unit : List UInt8) :
    op.instruction offset unit base' pool' = op.instruction offset unit base pool >>= r.instruction := by
  unfold Opcode.instruction
  rw [r.operands_eq op unit]
  cases op.operands unit base pool with
  | error fault => rfl
  | ok operands =>
    dsimp only [bind, Except.bind, Revision.instruction]
    cases operands.mapM r.revise <;> rfl

/-- What becomes of an item. A payload block stays as it is. -/
def item : Item → Except DecodeError Item
  | .instruction i => (r.instruction i).map .instruction
  | .payload span => .ok (.payload span)

/-- Base and pool have no say in whether there is an item at an offset, in its size, or in the payload blocks. -/
theorem itemAt_eq (code : List UInt8) (pc : Nat) :
    (itemAt code pc base' pool').value = (itemAt code pc base pool).value >>= r.item := by
  rw [itemAt_value, itemAt_value]
  rcases payloadAt code pc with fault | (_ | ⟨kind, length⟩)
  · rfl
  · unfold instructionAt
    cases code.drop pc with
    | nil => rfl
    | cons first rest =>
      simp only [instructionFrom_value]
      split
      · rfl
      · rw [r.instruction_eq]
        cases (Opcode.ofByte first).instruction pc
          ((first :: rest).take (Opcode.ofByte first).format.size) base pool <;> rfl
  · rfl

include r in
theorem itemAt_error {code : List UInt8} {pc : Nat} {e : DecodeError}
    (failed : (itemAt code pc base pool).value = .error e) : (itemAt code pc base' pool').value = .error e := by
  rw [r.itemAt_eq, failed]
  rfl

theorem itemAt_ok {code : List UInt8} {pc : Nat} {found : Item}
    (isItem : (itemAt code pc base pool).value = .ok found) :
    (itemAt code pc base' pool').value = r.item found := by
  rw [r.itemAt_eq, isItem]
  rfl

/-- The items of a walk, revised one by one, are those of a walk with the other base and pool. -/
theorem walk {code : List UInt8} {pc stop : Nat} {items : List Item} {revised : Instruction → Instruction}
    (walk : Walk code base pool pc items stop) (opcodes : ∀ i, (revised i).opcode = i.opcode)
    (same : ∀ item ∈ items, r.item item = .ok (item.mapInstruction revised)) :
    Walk code base' pool' pc (items.map (Item.mapInstruction revised)) stop := by
  induction walk with
  | stop => exact .stop
  | @next pc stop item items found _ ih =>
    obtain ⟨here, later⟩ := List.forall_mem_cons.mp same
    refine .next (by rw [r.itemAt_ok found, here]) ?_
    rw [item.size_mapInstruction opcodes]
    exact ih later

end Revision

end Dalvik
