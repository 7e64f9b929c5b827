import Dalvik.Listing
import Dalvik.Proofs.Mnemonics
import Dalvik.Proofs.Numerals
import Dalvik.Proofs.OperandForms

namespace Dalvik

/-- No comma is in the text, so that it can stand in a list. -/
def CommaFree (text : String) : Prop := ',' ∉ text.toList

instance (text : String) : Decidable (CommaFree text) := inferInstanceAs (Decidable (',' ∉ text.toList))

namespace CommaFree

theorem append {front back : String} (frontFree : CommaFree front) (backFree : CommaFree back) :
    CommaFree (front ++ back) := by
  intro comma
  rw [String.toList_append] at comma
  exact (List.mem_append.mp comma).elim frontFree backFree

theorem ofDigits {text : String} (digits : ∀ c ∈ text.toList, IsDigit c) : CommaFree text := fun comma =>
  absurd (digits ',' comma) (by decide)

theorem decimal (n : Nat) : CommaFree (decimal n) := .ofDigits fun _ => isDigit_of_mem_decimal

theorem hexPadded (width n : Nat) : CommaFree (hexPadded width n) := .ofDigits fun _ => isDigit_of_mem_hexPadded

theorem hex (n : Nat) : CommaFree (hex n) := .ofDigits fun _ => isDigit_of_mem_hex

end CommaFree

/-- What stands before the first separator and what stands behind it. -/
theorem append_separator_inj {α : Type} {separator : α} {front front' back back' : List α}
    (free : separator ∉ front)
    (free' : separator ∉ front') (same : front ++ separator :: back = front' ++ separator :: back') :
    front = front' ∧ back = back' := by
  induction front generalizing front' with
  | nil =>
    cases front' with
    | nil => exact ⟨rfl, (List.cons.inj same).2⟩
    | cons c front' => exact absurd (List.mem_cons.mpr (Or.inl (List.cons.inj same).1)) free'
  | cons c front ih =>
    cases front' with
    | nil => exact absurd (List.mem_cons.mpr (Or.inl (List.cons.inj same).1.symm)) free
    | cons c' front' =>
      obtain ⟨head, tail⟩ := List.cons.inj same
      obtain ⟨fronts, backs⟩ := ih (fun later => free (List.mem_cons_of_mem c later))
        (fun later => free' (List.mem_cons_of_mem c' later)) tail
      exact ⟨by rw [head, fronts], backs⟩

theorem toList_commas (text next : String) (texts : List String) :
    (", ".intercalate (text :: next :: texts)).toList =
      text.toList ++ ',' :: ' ' :: (", ".intercalate (next :: texts)).toList := by
  rw [String.intercalate_cons_cons, String.toList_append, String.toList_append, List.append_assoc]
  rfl

/-- Texts without commas are told apart in their list. -/
theorem commas_inj {texts texts' : List String} (free : ∀ text ∈ texts, CommaFree text)
    (free' : ∀ text ∈ texts', CommaFree text) (nonempty : texts ≠ []) (nonempty' : texts' ≠ [])
    (same : ", ".intercalate texts = ", ".intercalate texts') : texts = texts' := by
  induction texts generalizing texts' with
  | nil => exact absurd rfl nonempty
  | cons text texts ih =>
    cases texts' with
    | nil => exact absurd rfl nonempty'
    | cons text' texts' =>
      obtain ⟨first, later⟩ := List.forall_mem_cons.mp free
      obtain ⟨first', later'⟩ := List.forall_mem_cons.mp free'
      have chars := congrArg String.toList same
      cases texts with
      | nil =>
        cases texts' with
        | nil =>
          rw [String.intercalate_singleton, String.intercalate_singleton] at same
          rw [same]
        | cons next' texts' =>
          rw [toList_commas, String.intercalate_singleton] at chars
          exact absurd (chars ▸ List.mem_append_right _ (List.mem_cons_self ..)) first
      | cons next texts =>
        cases texts' with
        | nil =>
          rw [toList_commas, String.intercalate_singleton] at chars
          exact absurd (chars ▸ List.mem_append_right _ (List.mem_cons_self ..)) first'
        | cons next' texts' =>
          rw [toList_commas, toList_commas] at chars
          obtain ⟨fronts, backs⟩ := append_separator_inj first first' chars
          have rest := String.toList_inj.mp (List.cons.inj backs).2
          rw [String.toList_inj.mp fronts,
            ih later later' (List.cons_ne_nil next texts) (List.cons_ne_nil next' texts') rest]

namespace Registers

theorem registerText_inj {a b : UInt16} (same : Operand.registerText a = Operand.registerText b) : a = b := by
  have digits := (String.append_right_inj _).mp same
  exact UInt16.toNat_inj.mp (decimal_injective digits)

/-- A parameter and a plain register differ in the first letter of the name. -/
theorem parameter_ne_registerText (n : Nat) (b : UInt16) : "p" ++ decimal n ≠ Operand.registerText b := by
  intro same
  have chars := congrArg String.toList same
  rw [Operand.registerText, String.toList_append, String.toList_append] at chars
  exact absurd (List.cons.inj chars).1 (by decide)

theorem name_injective (r : Registers) : Function.Injective r.name := by
  intro a b same
  unfold name at same
  by_cases parameter : r.parameterBase ≤ a.toNat <;> by_cases parameter' : r.parameterBase ≤ b.toNat
  · rw [if_pos parameter, if_pos parameter'] at same
    have digits := decimal_injective ((String.append_right_inj _).mp same)
    exact UInt16.toNat_inj.mp (by omega)
  · rw [if_pos parameter, if_neg parameter'] at same
    exact absurd same (parameter_ne_registerText _ b)
  · rw [if_neg parameter, if_pos parameter'] at same
    exact absurd same.symm (parameter_ne_registerText _ a)
  · rw [if_neg parameter, if_neg parameter'] at same
    exact registerText_inj same

/-- No two registers have the same name. -/
theorem name?_injective (registers : Option Registers) : Function.Injective (name? registers) := by
  cases registers with
  | none => exact fun _ _ => registerText_inj
  | some r => exact r.name_injective

theorem commaFree_name? (registers : Option Registers) (number : UInt16) : CommaFree (name? registers number) := by
  have plain : CommaFree (Operand.registerText number) := .append (by decide) (.decimal _)
  cases registers with
  | none => exact plain
  | some r =>
    simp only [name?, name]
    split
    · exact .append (by decide) (.decimal _)
    · exact plain

end Registers

namespace ConstantPool

theorem eq_placeholderName {kind : ReferenceKind} {index : UInt32} {name : String}
    (found : placeholder.lookup kind index = some name) : name = placeholderName kind index := by
  cases kind with
  | none => cases found
  | string | type | field | method => exact (Option.some.inj found).symm

theorem placeholderName_inj {kind : ReferenceKind} {index index' : UInt32}
    (same : placeholderName kind index = placeholderName kind index') : index = index' := by
  unfold placeholderName at same
  exact UInt32.toNat_inj.mp (decimal_injective ((String.append_right_inj _).mp same))

end ConstantPool

namespace Operand

/-- Texts from which the number can be read back differ. -/
theorem injective_of_reads {base : Nat} {text : Int64 → String}
    (reads : ∀ v, signedNumeralValue base (text v).toList = v.toInt) : Function.Injective text := by
  intro v w same
  have value : v.toInt = w.toInt := by rw [← reads v, same, reads]
  exact Int64.toInt_inj.mp value

theorem signedNumeralValue_addressText (address : Int64) :
    signedNumeralValue 16 (addressText address).toList = address.toInt :=
  signedNumeralValue_minus (fun _ _ => isDigit_of_mem_hexPadded) (numeralValue_hexPadded 4) address.toInt

theorem signedNumeralValue_signedAddressText (address : Int64) :
    signedNumeralValue 16 (signedAddressText address).toList = address.toInt := by
  simp only [signedAddressText, String.toList_append]
  by_cases negative : address.toInt < 0
  · rw [if_pos negative]
    show -(numeralValue 16 (hex address.toInt.natAbs).toList : Int) = address.toInt
    rw [numeralValue_hex]
    omega
  · rw [if_neg negative]
    show (numeralValue 16 (hex address.toInt.natAbs).toList : Int) = address.toInt
    rw [numeralValue_hex]
    omega

/-- The digits of high bits are followed by a zero for each four bits below them. -/
theorem toList_text_high (bits : UInt16) (wide : Bool) :
    (high bits wide).text.toList =
      '@' :: ((hex bits.toNat).toList ++ List.replicate (if wide then 12 else 4) '0') := by
  simp only [text, String.toList_append]
  cases wide <;> rfl

theorem numeralValue_high (bits : UInt16) (wide : Bool) :
    ∃ digits, (high bits wide).text.toList = '@' :: digits ∧
      numeralValue 16 digits = bits.toNat * 16 ^ (if wide then 12 else 4) := by
  refine ⟨_, toList_text_high bits wide, ?_⟩
  rw [numeralValue_append_zeros, numeralValue_hex]

theorem high_inj {bits bits' : UInt16} {wide : Bool} (same : (high bits wide).text = (high bits' wide).text) :
    bits = bits' := by
  obtain ⟨digits, chars, value⟩ := numeralValue_high bits wide
  obtain ⟨digits', chars', value'⟩ := numeralValue_high bits' wide
  rw [same, chars'] at chars
  obtain rfl := (List.cons.inj chars).2
  rw [value] at value'
  have positive : 0 < 16 ^ (if wide then 12 else 4) := Nat.pow_pos (by decide)
  exact UInt16.toNat_inj.mp (Nat.eq_of_mul_eq_mul_right positive value')

variable {registers : Option Registers}

/-- The text of an operand tells which it is among those of its form. -/
theorem eq_of_render {a b : Operand} (sameForm : a.form = b.form) (named : a.NamedBy .placeholder)
    (named' : b.NamedBy .placeholder)
    (same : a.render (Registers.name? registers) = b.render (Registers.name? registers)) : a = b := by
  cases a <;> cases b <;> cases sameForm
  case register.register r s => rw [Registers.name?_injective registers same]
  case literal.literal v w => rw [injective_of_reads (fun v => signedNumeralValue_signedDecimal v.toInt) same]
  case high.high bits wide bits' => rw [high_inj same]
  case target.target t u => rw [injective_of_reads signedNumeralValue_addressText same]
  case farTarget.farTarget t u => rw [injective_of_reads signedNumeralValue_signedAddressText same]
  case reference.reference kind index name index' name' =>
    obtain rfl := ConstantPool.eq_placeholderName named
    obtain rfl := ConstantPool.eq_placeholderName named'
    rw [ConstantPool.placeholderName_inj same]

theorem eq_of_map_render {operands operands' : List Operand} (forms : operands.map form = operands'.map form)
    (named : ∀ operand ∈ operands, operand.NamedBy .placeholder)
    (named' : ∀ operand ∈ operands', operand.NamedBy .placeholder)
    (texts : operands.map (render (Registers.name? registers)) =
      operands'.map (render (Registers.name? registers))) :
    operands = operands' := by
  induction operands generalizing operands' with
  | nil => exact (List.map_eq_nil_iff.mp forms.symm).symm
  | cons operand operands ih =>
    cases operands' with
    | nil => cases forms
    | cons operand' operands' =>
      obtain ⟨sameForm, laterForms⟩ := List.cons.inj forms
      obtain ⟨sameText, laterTexts⟩ := List.cons.inj texts
      obtain ⟨first, later⟩ := List.forall_mem_cons.mp named
      obtain ⟨first', later'⟩ := List.forall_mem_cons.mp named'
      rw [eq_of_render sameForm first first' sameText, ih laterForms later later' laterTexts]

theorem commaFree_render {operand : Operand} (named : operand.NamedBy .placeholder) :
    CommaFree (operand.render (Registers.name? registers)) := by
  cases operand with
  | register number => exact Registers.commaFree_name? registers number
  | literal value =>
    simp only [render, text, signedDecimal]
    split
    · exact .append (by decide) (.decimal _)
    · exact .decimal _
  | high bits wide =>
    refine .append (.append (by decide) (.hex _)) ?_
    cases wide <;> decide
  | target address =>
    simp only [render, text, addressText]
    split
    · exact .append (by decide) (.hexPadded _ _)
    · exact .hexPadded _ _
  | farTarget address =>
    refine .append ?_ (.hex _)
    split <;> decide
  | reference kind index name =>
    obtain rfl := ConstantPool.eq_placeholderName named
    refine .append (.append ?_ (by decide)) (.decimal _)
    cases kind <;> decide

end Operand

namespace Listing

variable {registers : Option Registers} {i i' : Instruction}

theorem renderInstruction_of_nil (none : i.operands = []) : renderInstruction i registers = i.mnemonic := by
  rw [renderInstruction, none]
  rfl

theorem renderInstruction_of_ne_nil (some : i.operands ≠ []) :
    renderInstruction i registers =
      i.mnemonic ++ " " ++ ", ".intercalate (i.operands.map (Operand.render (Registers.name? registers))) := by
  unfold renderInstruction
  split
  · rename_i none
    exact absurd (List.map_eq_nil_iff.mp none) some
  · rfl

theorem toList_renderInstruction (some : i.operands ≠ []) :
    (renderInstruction i registers).toList = i.mnemonic.toList ++
      ' ' :: (", ".intercalate (i.operands.map (Operand.render (Registers.name? registers)))).toList := by
  rw [renderInstruction_of_ne_nil some, String.toList_append, String.toList_append, List.append_assoc]
  rfl

/-- The blank behind the mnemonic and the commas between the operands take the text apart. -/
theorem renderInstruction_inj (blank : ' ' ∉ i.mnemonic.toList) (blank' : ' ' ∉ i'.mnemonic.toList)
    (free : ∀ operand ∈ i.operands, CommaFree (operand.render (Registers.name? registers)))
    (free' : ∀ operand ∈ i'.operands, CommaFree (operand.render (Registers.name? registers)))
    (same : renderInstruction i registers = renderInstruction i' registers) :
    i.mnemonic = i'.mnemonic ∧
      i.operands.map (Operand.render (Registers.name? registers)) =
        i'.operands.map (Operand.render (Registers.name? registers)) := by
  have chars := congrArg String.toList same
  by_cases none : i.operands = [] <;> by_cases none' : i'.operands = []
  · rw [renderInstruction_of_nil none, renderInstruction_of_nil none'] at same
    exact ⟨same, by rw [none, none']⟩
  · rw [renderInstruction_of_nil none, toList_renderInstruction none'] at chars
    exact absurd (chars ▸ List.mem_append_right _ (List.mem_cons_self ..)) blank
  · rw [toList_renderInstruction none, renderInstruction_of_nil none'] at chars
    exact absurd (chars ▸ List.mem_append_right _ (List.mem_cons_self ..)) blank'
  · rw [toList_renderInstruction none, toList_renderInstruction none'] at chars
    obtain ⟨mnemonics, lists⟩ := append_separator_inj blank blank' chars
    refine ⟨String.toList_inj.mp mnemonics, commas_inj ?_ ?_ ?_ ?_ (String.toList_inj.mp lists)⟩
    · exact List.forall_mem_map.mpr free
    · exact List.forall_mem_map.mpr free'
    · exact fun empty => none (List.map_eq_nil_iff.mp empty)
    · exact fun empty => none' (List.map_eq_nil_iff.mp empty)

end Listing

/-- Two instructions with the same text, decoded anywhere and without tables, are the same but for their place:
they have the same mnemonic and operands, and the same opcode unless that is one of those that carry no
instruction. -/
theorem renderInstruction_unambiguous {code code' : List UInt8} {offset offset' : Nat} {base base' : UInt32}
    {i i' : Instruction} (registers : Option Registers)
    (decoded : (instructionAt code offset base .placeholder).value = .ok i)
    (decoded' : (instructionAt code' offset' base' .placeholder).value = .ok i')
    (same : Listing.renderInstruction i registers = Listing.renderInstruction i' registers) :
    i.mnemonic = i'.mnemonic ∧ i.operands = i'.operands ∧ (i.mnemonic ≠ "unused" → i.opcode = i'.opcode) := by
  obtain ⟨⟨first, isOpcode⟩, legal⟩ := instructionAt_legal decoded
  obtain ⟨⟨first', isOpcode'⟩, legal'⟩ := instructionAt_legal decoded'
  have blank : ' ' ∉ i.mnemonic.toList := by
    rw [Instruction.mnemonic, isOpcode]
    exact Opcode.blank_notMem_mnemonic_ofByte first
  have blank' : ' ' ∉ i'.mnemonic.toList := by
    rw [Instruction.mnemonic, isOpcode']
    exact Opcode.blank_notMem_mnemonic_ofByte first'
  obtain ⟨mnemonics, texts⟩ := Listing.renderInstruction_inj blank blank'
    (fun operand member => Operand.commaFree_render (legal.namedBy operand member))
    (fun operand member => Operand.commaFree_render (legal'.namedBy operand member)) same
  have lengths : i.operands.length = i'.operands.length := by
    simpa only [List.length_map] using congrArg List.length texts
  have opcodes := mnemonics
  rw [Instruction.mnemonic, Instruction.mnemonic, isOpcode, isOpcode'] at opcodes
  -- A literal and an address can have the same text: which of them it is, only the opcode tells.
  have sameForms : i.operands.map Operand.form = i'.operands.map Operand.form := by
    rw [legal.map_form, legal'.map_form, lengths, isOpcode, isOpcode']
    rcases Opcode.ofByte_eq_of_mnemonic opcodes with same | ⟨unused, unused'⟩
    · rw [same]
    · rw [unused, unused']
      rfl
  refine ⟨mnemonics, Operand.eq_of_map_render sameForms legal.namedBy legal'.namedBy texts, fun used => ?_⟩
  rcases Opcode.ofByte_eq_of_mnemonic opcodes with same | ⟨unused, _⟩
  · rw [isOpcode, isOpcode', same]
  · rw [Instruction.mnemonic, isOpcode, unused] at used
    exact absurd rfl used

/-- A call, and the same call at another place with other bytes where its format ignores them. -/
theorem renderInstruction_unambiguous_call :
    let registers : Option Registers := some ⟨4, 2⟩
    ∃ i i', (instructionAt [0x6e, 0x20, 5, 0, 0x21, 0] 0 0 .placeholder).value = .ok i ∧
      (instructionAt [0, 0, 0x6e, 0x2f, 5, 0, 0x21, 0xff] 2 0x100 .placeholder).value = .ok i' ∧
      Listing.renderInstruction i registers = "invoke-virtual v1, p0, method@5" ∧
      Listing.renderInstruction i' registers = "invoke-virtual v1, p0, method@5" ∧
      i.mnemonic ≠ "unused" ∧ i.operands = i'.operands ∧ i.opcode = i'.opcode := by
  intro registers
  let operands : List Operand :=
    [.register 1, .register 2, .reference .method 5 (ConstantPool.placeholderName .method 5)]
  have decoded : (instructionAt [0x6e, 0x20, 5, 0, 0x21, 0] 0 0 .placeholder).value =
      .ok ⟨0, .ofByte 0x6e, operands⟩ := rfl
  have decoded' : (instructionAt [0, 0, 0x6e, 0x2f, 5, 0, 0x21, 0xff] 2 0x100 .placeholder).value =
      .ok ⟨2, .ofByte 0x6e, operands⟩ := rfl
  have text (offset : Nat) :
      Listing.renderInstruction ⟨offset, .ofByte 0x6e, operands⟩ registers = "invoke-virtual v1, p0, method@5" :=
    rfl
  have used : (Opcode.ofByte 0x6e).mnemonic ≠ "unused" := by decide
  obtain ⟨_, sameOperands, sameOpcode⟩ :=
    renderInstruction_unambiguous registers decoded decoded' ((text 0).trans (text 2).symm)
  exact ⟨_, _, decoded, decoded', text 0, text 2, used, sameOperands, sameOpcode used⟩

end Dalvik
