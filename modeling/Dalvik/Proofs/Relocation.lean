import Mathlib.Data.List.Forall2
import Dalvik.Proofs.OperandLegality
import Dalvik.Proofs.PayloadMap
import Dalvik.Proofs.TwoRuns

namespace Dalvik

open Operand

namespace Operand

/-- The operand with its address moved, in the arithmetic of addresses. -/
def relocate (distance : Int64) : Operand → Operand
  | target address => target (address + distance)
  | farTarget address => farTarget (address + distance)
  | operand => operand

/-- The other operand has its address moved by the number, without overflow, and is the same in all else. -/
def Translated (shift : Int) : Operand → Operand → Prop
  | target address, target address' | farTarget address, farTarget address' => address'.toInt =
    address.toInt + shift
  | operand, operand' => operand' = operand

end Operand

/-- The way from one base to another. -/
def distance (base base' : UInt32) : Int64 := Int64.ofNat base'.toNat - Int64.ofNat base.toNat

theorem addressFrom_add_distance (base base' : UInt32) (displacement : Int) :
    addressFrom base displacement + distance base base' = addressFrom base' displacement := by
  simp only [addressFrom, distance]
  grind

/-- An address in reach of its base is translated as an integer. -/
theorem toInt_add_distance (base base' : UInt32) {address : Int64}
    (reach : FitsSigned 4 (displacementTo base address)) :
    (address + distance base base').toInt = address.toInt + (base'.toNat - base.toNat) := by
  have moved := addressFrom_add_distance base base' (displacementTo base address)
  rw [addressFrom_displacementTo] at moved
  rw [moved, addressFrom_toInt base' reach, displacementTo]
  omega

theorem Operand.translated_relocate (base base' : UInt32) {operand : Operand}
    (reach : ∀ address, operand.target? = some address → FitsSigned 4 (displacementTo base address)) :
    operand.Translated (base'.toNat - base.toNat) (operand.relocate (distance base base')) := by
  cases operand with
  | target address | farTarget address => exact toInt_add_distance base base' (reach address rfl)
  | register | literal | high | reference => rfl

/-- Every address among legal operands is in reach of the base. -/
theorem Opcode.Legal.reach {op : Opcode} {base : UInt32} {pool : ConstantPool} {operands : List Operand}
    (legal : op.Legal base pool operands) {operand : Operand} (member : operand ∈ operands) {address : Int64}
    (isTarget : operand.target? = some address) : FitsSigned 4 (displacementTo base address) := by
  unfold Legal at legal
  cases format : op.format
  all_goals rw [format] at legal
  case f10t | f20t | f30t =>
    obtain ⟨t, rfl, fits⟩ := legal
    obtain rfl := List.mem_singleton.mp member
    cases isTarget
    exact fits.widen (by decide)
  case f21t | f31t =>
    obtain ⟨a, t, rfl, _, fits⟩ := legal
    rcases List.mem_cons.mp member with rfl | member
    · cases isTarget
    · obtain rfl := List.mem_singleton.mp member
      cases isTarget
      exact fits.widen (by decide)
  case f22t =>
    obtain ⟨a, b, t, rfl, _, _, fits⟩ := legal
    simp only [List.mem_cons, List.not_mem_nil, or_false] at member
    rcases member with rfl | rfl | rfl
    all_goals cases isTarget
    exact fits.widen (by decide)
  all_goals grind [target?]

/-- Decoding at one base and at another. -/
def relocation (base base' : UInt32) (pool : ConstantPool) : Revision base base' pool pool where
  revise operand := .ok (operand.relocate (distance base base'))
  register _ := rfl
  literal _ := rfl
  high _ _ := rfl
  target displacement := by rw [Operand.relocate, addressFrom_add_distance]
  farTarget displacement := by rw [Operand.relocate, addressFrom_add_distance]
  resolve kind index := by
    cases found : pool.resolve kind index with
    | error fault => rfl
    | ok entry =>
      obtain ⟨name, rfl, _⟩ := ConstantPool.resolve_eq_ok found
      rfl

namespace Instruction

def relocate (distance : Int64) (i : Instruction) : Instruction :=
  { i with operands := i.operands.map (Operand.relocate distance) }

/-- The same opcode at the same offset, with the addresses of its operands moved by the number. -/
structure Translated (shift : Int) (i i' : Instruction) : Prop where
  offset : i'.offset = i.offset
  opcode : i'.opcode = i.opcode
  operands : List.Forall₂ (Operand.Translated shift) i.operands i'.operands

end Instruction

theorem relocation_item (base base' : UInt32) (pool : ConstantPool) (item : Item) :
    (relocation base base' pool).item item =
      .ok (item.mapInstruction (Instruction.relocate (distance base base'))) := by
  cases item with
  | payload span => rfl
  | instruction i =>
    have operands : i.operands.mapM (relocation base base' pool).revise =
        .ok (i.operands.map (Operand.relocate (distance base base'))) := List.mapM_pure
    rw [Revision.item, Revision.instruction, operands]
    rfl

namespace Disassembly

/-- The same payload blocks, and the same instructions with the addresses of their operands moved by the number. -/
structure Translated (shift : Int) (d d' : Disassembly) : Prop where
  payloadMap : d'.payloadMap = d.payloadMap
  instructions : List.Forall₂ (Instruction.Translated shift) d.instructions d'.instructions

end Disassembly

/-- Both succeed with results in relation, or both fail with the same error. -/
inductive Agree {ε α : Type} (relation : α → α → Prop) : Except ε α → Except ε α → Prop
  | ok {a b} : relation a b → Agree relation (.ok a) (.ok b)
  | error {e} : Agree relation (.error e) (.error e)

namespace Walk

variable {code : List UInt8} {base : UInt32} {pool : ConstantPool} {pc stop : Nat} {items : List Item}

theorem relocate (walk : Walk code base pool pc items stop) (base' : UInt32) :
    Walk code base' pool pc (items.map (Item.mapInstruction (Instruction.relocate (distance base base')))) stop :=
  (relocation base base' pool).walk walk (fun _ => rfl) fun item _ => relocation_item base base' pool item

theorem reach (walk : Walk code base pool pc items stop) {i : Instruction}
    (member : i ∈ (Disassembly.ofItems items).instructions) {operand : Operand} (isOperand : operand ∈ i.operands)
    {address : Int64} (isTarget : operand.target? = some address) : FitsSigned 4 (displacementTo base address) := by
  obtain ⟨item, itemMember, isInstruction⟩ := List.mem_filterMap.mp member
  cases item <;> cases isInstruction
  obtain ⟨_, _, found⟩ := walk.item_bounds itemMember
  exact (itemAt_legal found).reach isOperand isTarget

theorem translated (walk : Walk code base pool pc items stop) (base' : UInt32) :
    (Disassembly.ofItems items).Translated (base'.toNat - base.toNat)
      (.ofItems (items.map (Item.mapInstruction (Instruction.relocate (distance base base'))))) := by
  rw [Disassembly.ofItems_mapInstruction]
  refine ⟨rfl, ?_⟩
  rw [List.forall₂_map_right_iff, List.forall₂_same]
  refine fun i member => ⟨rfl, rfl, ?_⟩
  rw [Instruction.relocate, List.forall₂_map_right_iff, List.forall₂_same]
  exact fun operand isOperand => translated_relocate base base' fun address => walk.reach member isOperand

end Walk

/-- The base moves the addresses and nothing else. The sums of base and displacement are exact, and an address is
never farther from its base than a displacement of four bytes reaches. -/
theorem disassemble_translate (code : List UInt8) (pool : ConstantPool) (base base' : UInt32) :
    Agree (Disassembly.Translated ((base'.toNat : Int) - base.toNat)) (disassemble code base pool).value
      (disassemble code base' pool).value ∧
    (∀ displacement, FitsSigned 4 displacement →
      (addressFrom base displacement).toInt = (base.toNat : Int) + displacement) ∧
    ∀ d, (disassemble code base pool).value = .ok d → ∀ i ∈ d.instructions, ∀ operand ∈ i.operands,
      ∀ address, operand.target? = some address →
        (base.toNat : Int) - 0x80000000 ≤ address.toInt ∧ address.toInt ≤ (base.toNat : Int) + 0x7fffffff := by
  refine ⟨?_, fun displacement fits => addressFrom_toInt base fits, ?_⟩
  · by_cases odd : code.length % 2 = 1
    · rw [disassemble_odd base pool odd, disassemble_odd base' pool odd]
      exact .error
    · have even : code.length % 2 = 0 := by omega
      obtain ⟨items, stop, walk, ⟨rfl, run⟩ | ⟨e, before, failed, run⟩⟩ := disassemble_walk base pool even
      · rw [run, (walk.relocate base').disassemble_ok]
        exact .ok (walk.translated base')
      · have failed' := (relocation base base' pool).itemAt_error failed
        rw [run, (walk.relocate base').disassemble_error even before failed']
        exact .error
  · intro d run i member operand isOperand address isTarget
    obtain ⟨items, walk, rfl⟩ := disassemble_ok_iff.mp run
    obtain ⟨lower, upper⟩ := walk.reach member isOperand isTarget
    simp only [fieldRange, Nat.pow_eq, displacementTo] at lower upper
    omega

/-- The farthest branch back, at the lowest base and at the highest. -/
theorem disassemble_translate_goto :
    let code : List UInt8 := [0x2a, 0, 0, 0, 0, 0x80]
    let first : Instruction := ⟨0, .ofByte 0x2a, [.farTarget (-0x80000000)]⟩
    (∃ d, (disassemble code 0 .placeholder).value = .ok d ∧ d.instructions = [first]) ∧
    (∃ d i address, (disassemble code 0xffffffff .placeholder).value = .ok d ∧ d.instructions = [i] ∧
      i.operands = [.farTarget address] ∧ address.toInt = 0x7fffffff) ∧
    (0 : Int) - 0x80000000 ≤ (-0x80000000 : Int64).toInt := by
  intro code first
  have walk : Walk code 0 .placeholder 0 [.instruction first] code.length := .next rfl .stop
  have run := walk.disassemble_ok
  obtain ⟨agree, _, bounds⟩ := disassemble_translate code .placeholder 0 0xffffffff
  refine ⟨⟨_, run, rfl⟩, ?_, (bounds _ run first (by decide) _ (List.mem_singleton_self _) _ rfl).1⟩
  rw [run] at agree
  generalize (disassemble code 0xffffffff .placeholder).value = outcome at agree
  obtain ⟨_, instructions⟩ := agree
  obtain ⟨i, _, ⟨_, _, operands⟩, last, same⟩ := List.forall₂_cons_left_iff.mp instructions
  obtain rfl := List.forall₂_nil_left_iff.mp last
  obtain ⟨operand, _, moved, lastOperand, sameOperands⟩ := List.forall₂_cons_left_iff.mp operands
  obtain rfl := List.forall₂_nil_left_iff.mp lastOperand
  cases operand with
  | farTarget address => exact ⟨_, i, address, rfl, same, sameOperands, moved⟩
  | register | literal | high | target | reference => cases moved

end Dalvik
