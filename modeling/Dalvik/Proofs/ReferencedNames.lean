import Dalvik.Proofs.Mnemonics
import Dalvik.Proofs.ItemOrder
import Dalvik.Proofs.OperandShape

namespace Dalvik

namespace Operand

variable {kind : ReferenceKind} {operands : List Operand}

theorem namesOf_append (front back : List Operand) :
    namesOf kind (front ++ back) = namesOf kind front ++ namesOf kind back :=
  List.filterMap_append

theorem namesOf_eq_nil (none : ∀ index name, .reference kind index name ∉ operands) :
    namesOf kind operands = [] := by
  refine List.filterMap_eq_nil_iff.mpr fun operand member => ?_
  cases operand with
  | reference table index name =>
    refine if_neg fun same => ?_
    rw [same] at member
    exact none index name member
  | _ => rfl

/-- Each reference gives its name to one table. -/
theorem length_namesOf (tables : ∀ index name, .reference .none index name ∉ operands) :
    (namesOf .string operands).length + (namesOf .type operands).length + (namesOf .field operands).length +
      (namesOf .method operands).length = operands.countP (·.referenceName?.isSome) := by
  induction operands with
  | nil => rfl
  | cons operand operands ih =>
    have later := ih fun index name member => tables index name (List.mem_cons_of_mem operand member)
    have own : (namesOf .string [operand]).length + (namesOf .type [operand]).length +
        (namesOf .field [operand]).length + (namesOf .method [operand]).length =
          [operand].countP (·.referenceName?.isSome) := by
      cases operand with
      | reference kind index name =>
        cases kind with
        | none => exact absurd (List.mem_cons_self ..) (tables index name)
        | _ => rfl
      | _ => rfl
    rw [← List.singleton_append, List.countP_append]
    simp only [namesOf_append, List.length_append]
    omega

end Operand

open Operand Disassembly

namespace Opcode

set_option maxRecDepth 10000 in
/-- The opcodes that load a string are those whose index is one into the table of strings. -/
theorem loadsString_iff (value : UInt8) :
    loadsString (ofByte value) = true ↔
      (ofByte value).format.isReference = true ∧ (ofByte value).reference = .string := by
  have tables : ∀ op ∈ defined, loadsString op = true ↔ op.format.isReference = true ∧ op.reference = .string := by
    decide
  rcases ofByte_cases value with isDefined | isUnused
  · exact tables _ isDefined
  · have formats := congrArg Opcode.format isUnused
    constructor
    · intro loads
      rw [isUnused, loadsString, Bool.or_eq_true, decide_eq_true_eq, decide_eq_true_eq] at loads
      rcases loads with rfl | rfl <;> cases formats
    · rintro ⟨reference, _⟩
      rw [isUnused] at reference
      cases reference

variable {op : Opcode} {base : UInt32} {pool : ConstantPool} {operands : List Operand}

theorem Legal.notMem_reference (legal : op.Legal base pool operands) (index : UInt32) (name : String) :
    .reference .none index name ∉ operands := by
  intro member
  obtain ⟨same, table, _⟩ := legal.reference member
  exact table same.symm

/-- The names of an instruction are one for each index that its format has. -/
theorem Legal.length_namesOf (legal : op.Legal base pool operands) :
    (namesOf .string operands).length + (namesOf .type operands).length + (namesOf .field operands).length +
      (namesOf .method operands).length = op.format.isReference.toNat := by
  rw [Operand.length_namesOf legal.notMem_reference, legal.countP_reference]

/-- The names of strings are those in the last operands of the instructions that load one. -/
theorem Legal.namesOf_string {value : UInt8} (legal : (ofByte value).Legal base pool operands) :
    namesOf .string operands =
      if loadsString (ofByte value) = true then (operands.getLast?.bind referenceName?).toList else [] := by
  have references := exists_mem_iff_of_countP legal.countP_reference
  rw [← exists_reference_iff] at references
  split
  · rename_i loads
    obtain ⟨indexed, strings⟩ := (loadsString_iff value).mp loads
    obtain ⟨kind, index, name, member⟩ := references.mpr indexed
    obtain ⟨rfl, _, _⟩ := legal.reference member
    have last := legal.getLast?_of_mem member rfl
    have registers : namesOf .string operands.dropLast = [] := by
      refine namesOf_eq_nil fun index name inFront => ?_
      obtain ⟨number, same⟩ := legal.register_before_last _ inFront
      cases same
    have whole := List.dropLast_append_getLast? _ last
    -- The registers before the index have no names, so that its name is all there is.
    calc
      namesOf .string operands =
          namesOf .string operands.dropLast ++
            namesOf .string [.reference (ofByte value).reference index name] := by
        rw [← namesOf_append, whole]
      _ = [name] := by
        rw [registers, strings]
        rfl
      _ = (operands.getLast?.bind referenceName?).toList := by
        rw [last]
        rfl
  · rename_i loadsNone
    refine namesOf_eq_nil fun index name member => loadsNone ((loadsString_iff value).mpr ⟨?_, ?_⟩)
    · exact references.mp ⟨_, index, name, member⟩
    · exact (legal.reference member).1.symm

end Opcode

variable {code : List UInt8} {base : UInt32} {pool : ConstantPool} {d : Disassembly}

/-- Every instruction of a method has an opcode of the table and operands that fit its format. -/
theorem legal_of_mem_instructions (run : (disassemble code base pool).value = .ok d) {i : Instruction}
    (member : i ∈ d.instructions) :
    ∃ value, i.opcode = .ofByte value ∧ (Opcode.ofByte value).Legal base pool i.operands := by
  obtain ⟨items, walk, rfl⟩ := disassemble_ok_iff.mp run
  obtain ⟨_, _, found⟩ := walk.item_bounds (Item.mem_filterMap_instruction?.mp member)
  have legal := itemAt_legal found
  rcases itemAt_ok_cases found with ⟨kind, length, _, same⟩ | ⟨value, rest, operands, _, _, _, same⟩
  · cases same
  · have fromTable : i.opcode = .ofByte value := congrArg Instruction.opcode (Item.instruction.inj same)
    rw [fromTable] at legal
    exact ⟨value, fromTable, legal⟩

/-- Where each instruction gives as many names as its format has indices, so do all of them together. -/
theorem sum_lengths_namesOf {instructions : List Instruction}
    (each : ∀ i ∈ instructions, (namesOf .string i.operands).length + (namesOf .type i.operands).length +
      (namesOf .field i.operands).length + (namesOf .method i.operands).length = i.format.isReference.toNat) :
    (instructions.flatMap fun i => namesOf .string i.operands).length +
        (instructions.flatMap fun i => namesOf .type i.operands).length +
        (instructions.flatMap fun i => namesOf .field i.operands).length +
        (instructions.flatMap fun i => namesOf .method i.operands).length =
      instructions.countP (·.format.isReference) := by
  induction instructions with
  | nil => rfl
  | cons i instructions ih =>
    obtain ⟨own, later⟩ := List.forall_mem_cons.mp each
    have rest := ih later
    have counted : (i :: instructions).countP (·.format.isReference) =
        instructions.countP (·.format.isReference) + i.format.isReference.toNat := by
      rw [List.countP_cons]
      cases i.format.isReference <;> rfl
    simp only [List.flatMap_cons, List.length_append]
    omega

/-- The strings that a method loads, found by the opcodes that load one, are the names that it takes from the
table of strings. No name comes from elsewhere than the four tables, and there is one for each instruction with an
index. -/
theorem loadedStrings_eq_references (run : (disassemble code base pool).value = .ok d) :
    d.loadedStrings = d.references .string ∧ d.references .none = [] ∧
    (d.references .string).length + (d.references .type).length + (d.references .field).length +
      (d.references .method).length = d.instructions.countP (·.format ∈ [.f21c, .f22c, .f31c, .f35c]) := by
  refine ⟨?_, List.flatMap_eq_nil_iff.mpr fun i member => ?_, ?_⟩
  · rw [loadedStrings, List.filterMap_filter, List.filterMap_eq_flatMap_toList, references]
    refine List.flatMap_congr fun i member => ?_
    obtain ⟨value, fromTable, legal⟩ := legal_of_mem_instructions run member
    rw [legal.namesOf_string, fromTable]
    split <;> rfl
  · obtain ⟨value, _, legal⟩ := legal_of_mem_instructions run member
    exact namesOf_eq_nil legal.notMem_reference
  · have formats : (fun i : Instruction => decide (i.format ∈ [.f21c, .f22c, .f31c, .f35c])) =
        fun i => i.format.isReference := by
      funext i
      rw [Bool.eq_iff_iff, decide_eq_true_eq, Format.isReference_iff]
    simp only [references, formats]
    refine sum_lengths_namesOf fun i member => ?_
    obtain ⟨value, fromTable, legal⟩ := legal_of_mem_instructions run member
    rw [legal.length_namesOf, Instruction.format, fromTable]

/-- A string, a call, and a string with a longer index. -/
theorem loadedStrings_eq_references_mixed :
    let code : List UInt8 := [0x1a, 0, 1, 0, 0x6e, 0x10, 5, 0, 0, 0, 0x1b, 3, 0, 0, 1, 0]
    ∃ d, (disassemble code 0 .placeholder).value = .ok d ∧
      d.loadedStrings = d.references .string ∧ d.references .string = ["string@1", "string@65536"] ∧
      (d.references .string).length + (d.references .type).length + (d.references .field).length +
        (d.references .method).length = 3 := by
  intro code
  let name (kind : ReferenceKind) (index : UInt32) : Operand :=
    .reference kind index (ConstantPool.placeholderName kind index)
  let items : List Item :=
    [.instruction ⟨0, .ofByte 0x1a, [.register 0, name .string 1]⟩,
     .instruction ⟨4, .ofByte 0x6e, [.register 0, name .method 5]⟩,
     .instruction ⟨10, .ofByte 0x1b, [.register 3, name .string 0x10000]⟩]
  have walk : Walk code 0 .placeholder 0 items code.length := .next rfl (.next rfl (.next rfl .stop))
  obtain ⟨strings, _, count⟩ := loadedStrings_eq_references walk.disassemble_ok
  exact ⟨_, walk.disassemble_ok, strings, rfl, count⟩

end Dalvik
