import Dalvik.Proofs.InstructionText

namespace Dalvik

/-- The mnemonic, with a blank and the operands behind it if there are any. -/
def TextRecord.text (r : TextRecord) : String :=
  if r.operands = [] then r.mnemonic else r.mnemonic ++ " " ++ ", ".intercalate r.operands

/-- The texts of the operands, those of registers replaced by the names that `r` gives them. -/
def Registers.rename (r : Registers) (operands : List Operand) (texts : List String) : List String :=
  List.zipWith (fun operand text => operand.register?.elim text r.name) operands texts

theorem TextRecord.text_of_nil {r : TextRecord} (none : r.operands = []) : r.text = r.mnemonic := if_pos none

theorem TextRecord.text_of_ne_nil {r : TextRecord} (some : r.operands ≠ []) :
    r.text = r.mnemonic ++ " " ++ ", ".intercalate r.operands := if_neg some

namespace Instruction

/-- Behind the first operand each further one brings its comma with it, as between the texts of a list. -/
theorem appendOperands_cons (line separator : String) (operand : Operand) (rest : List Operand) :
    appendOperands line separator (operand :: rest) =
      line ++ separator ++ ", ".intercalate ((operand :: rest).map Operand.text) := by
  induction rest generalizing line separator operand with
  | nil =>
    rw [List.map_cons, List.map_nil, String.intercalate_singleton]
    rfl
  | cons next rest ih =>
    calc appendOperands line separator (operand :: next :: rest)
        = appendOperands (line ++ separator ++ operand.text) ", " (next :: rest) := rfl
      _ = line ++ separator ++ operand.text ++ ", " ++ ", ".intercalate ((next :: rest).map Operand.text) := ih ..
      _ = line ++ separator ++ ", ".intercalate ((operand :: next :: rest).map Operand.text) := by
        simp only [List.map_cons, String.intercalate_cons_cons, String.append_assoc]

theorem text_eq_record_text (i : Instruction) : i.text = i.record.text := by
  cases operands : i.operands with
  | nil =>
    have none : i.record.operands = [] := by rw [record, operands, List.map_nil]
    rw [TextRecord.text_of_nil none, text, operands]
    rfl
  | cons operand rest =>
    have texts : i.record.operands = (operand :: rest).map Operand.text := by rw [record, operands]
    have some : i.record.operands ≠ [] := texts ▸ List.cons_ne_nil _ _
    rw [TextRecord.text_of_ne_nil some, text, operands, appendOperands_cons, texts]
    rfl

end Instruction

namespace Listing

theorem renderInstruction_eq_text (i : Instruction) (registers : Option Registers) :
    renderInstruction i registers =
      { i.record with operands := i.operands.map (Operand.render (Registers.name? registers)) }.text := by
  by_cases none : i.operands = []
  · rw [renderInstruction_of_nil none, TextRecord.text_of_nil (List.map_eq_nil_iff.mpr none)]
    rfl
  · rw [renderInstruction_of_ne_nil none,
      TextRecord.text_of_ne_nil (fun empty => none (List.map_eq_nil_iff.mp empty))]
    rfl

end Listing

theorem Operand.render_registerText (operand : Operand) : operand.render registerText = operand.text := by
  cases operand <;> rfl

theorem Operand.render_eq_elim (operand : Operand) (nameRegister : UInt16 → String) :
    operand.render nameRegister = operand.register?.elim operand.text nameRegister := by
  cases operand <;> rfl

theorem Registers.rename_texts (r : Registers) (operands : List Operand) :
    r.rename operands (operands.map Operand.text) = operands.map (Operand.render r.name) := by
  rw [rename, List.zipWith_map_right, List.zipWith_self]
  exact List.map_congr_left fun operand _ => (operand.render_eq_elim r.name).symm

/-- The text that a listing shows, the text of the instruction itself and the one put together from its record are
the same. With parameters the listing changes nothing but the names of registers, and keeps them apart. -/
theorem renderings_agree (i : Instruction) :
    Listing.renderInstruction i none = i.text ∧ i.text = i.record.text ∧
      ∀ r : Registers,
        Listing.renderInstruction i (some r) =
          { i.record with operands := r.rename i.operands i.record.operands }.text ∧
        Function.Injective r.name := by
  refine ⟨?_, i.text_eq_record_text, fun r => ⟨?_, r.name_injective⟩⟩
  · have unchanged : i.operands.map (Operand.render (Registers.name? none)) = i.record.operands :=
      List.map_congr_left fun operand _ => operand.render_registerText
    rw [Listing.renderInstruction_eq_text, unchanged, i.text_eq_record_text]
  · rw [Listing.renderInstruction_eq_text]
    show _ = ({ i.record with operands := r.rename i.operands (i.operands.map Operand.text) } : TextRecord).text
    rw [r.rename_texts]
    rfl

-- A method with more parameters than registers has no plain registers.
example :
    Listing.renderInstruction ⟨0, .ofByte 0x01, [.register 0, .register 1]⟩ (some ⟨1, 3⟩) = "move p0, p1" := by
  decide

end Dalvik
