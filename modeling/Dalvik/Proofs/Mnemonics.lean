import Mathlib.Data.List.Nodup
import Dalvik.Opcode.Table
import Dalvik.Reader

namespace Dalvik

/-- Whether no number is in the list twice, or in it and among those seen before, whose bits are set in `seen`. -/
def distinctFrom : (seen : Nat) → List Nat → Bool
  | _, [] => true
  | seen, n :: rest => !seen.testBit n && distinctFrom (seen ||| 1 <<< n) rest

theorem nodup_of_distinctFrom {seen : Nat} {numbers : List Nat} (distinct : distinctFrom seen numbers = true) :
    numbers.Nodup ∧ ∀ n ∈ numbers, seen.testBit n = false := by
  induction numbers generalizing seen with
  | nil => exact ⟨List.nodup_nil, fun n member => absurd member List.not_mem_nil⟩
  | cons n rest ih =>
    simp only [distinctFrom, Bool.and_eq_true, Bool.not_eq_true'] at distinct
    obtain ⟨unseen, later⟩ := distinct
    obtain ⟨nodup, fresh⟩ := ih later
    have isSeen : (seen ||| 1 <<< n).testBit n = true := by simp [Nat.testBit_or, Nat.testBit_shiftLeft]
    refine ⟨List.nodup_cons.mpr ⟨fun member => ?_, nodup⟩, List.forall_mem_cons.mpr ⟨unseen, fun m member => ?_⟩⟩
    · rw [fresh n member] at isSeen
      cases isSeen
    · have notSeen := fresh m member
      rw [Nat.testBit_or, Bool.or_eq_false_iff] at notSeen
      exact notSeen.1

/-- The bytes of a text. -/
def utf8Bytes (text : String) : List UInt8 := text.toByteArray.data.toList

/-- A character of one byte is in a text only if this byte is. -/
theorem mem_utf8Bytes {text : String} {c : Char} (single : c.utf8Size = 1) (member : c ∈ text.toList) :
    c.val.toUInt8 ∈ utf8Bytes text := by
  have bytes (chars : List Char) : utf8Bytes (String.ofList chars) = chars.flatMap String.utf8EncodeChar := by
    rw [utf8Bytes, String.toByteArray_ofList, List.utf8Encode, List.data_toByteArray, List.toList_toArray]
  rw [← String.ofList_toList (s := text), bytes]
  refine List.mem_flatMap.mpr ⟨c, member, ?_⟩
  rw [String.utf8EncodeChar_eq_singleton single]
  exact List.mem_singleton_self _

namespace Opcode

/-- A number that tells the mnemonics apart. -/
def fingerprint (mnemonic : String) : Nat := littleEndian (utf8Bytes mnemonic) % 65521

set_option maxRecDepth 10000 in
/-- No two opcodes that carry an instruction have the same mnemonic, and none has that of the opcodes without
one. -/
theorem mnemonics_nodup : ("unused" :: defined.map (·.mnemonic)).Nodup := by
  -- The texts are many and slow to compare, so each pair is told apart by numbers.
  have distinct : distinctFrom 0 (("unused" :: defined.map (·.mnemonic)).map fingerprint) = true := by
    decide +kernel
  exact (nodup_of_distinctFrom distinct).1.of_map

set_option maxRecDepth 10000 in
theorem blank_notMem_mnemonic {op : Opcode} (isDefined : op ∈ defined) : ' ' ∉ op.mnemonic.toList := by
  have noBlank : ∀ op ∈ defined, 0x20 ∉ utf8Bytes op.mnemonic := by decide +kernel
  exact fun blank => noBlank op isDefined (mem_utf8Bytes rfl blank)

theorem ofByte_cases (value : UInt8) : ofByte value ∈ defined ∨ ofByte value = unused value := by
  unfold ofByte
  cases found : defined.find? (·.value = value) with
  | none => exact Or.inr rfl
  | some op => exact Or.inl (List.mem_of_find?_eq_some found)

theorem blank_notMem_mnemonic_ofByte (value : UInt8) : ' ' ∉ (ofByte value).mnemonic.toList := by
  rcases ofByte_cases value with isDefined | isUnused
  · exact blank_notMem_mnemonic isDefined
  · rw [isUnused]
    exact show ' ' ∉ "unused".toList by decide

/-- A mnemonic names one opcode, unless it stands for all that carry no instruction. -/
theorem ofByte_eq_of_mnemonic {a b : UInt8} (same : (ofByte a).mnemonic = (ofByte b).mnemonic) :
    ofByte a = ofByte b ∨ (ofByte a = unused a ∧ ofByte b = unused b) := by
  obtain ⟨notUnused, nodup⟩ := List.nodup_cons.mp mnemonics_nodup
  have apart {value value' : UInt8} (isDefined : ofByte value ∈ defined)
      (isUnused : ofByte value' = unused value') :
      (ofByte value).mnemonic ≠ (ofByte value').mnemonic := by
    intro same
    have member : (ofByte value).mnemonic ∈ defined.map (·.mnemonic) := List.mem_map_of_mem isDefined
    rw [same, isUnused] at member
    exact notUnused member
  rcases ofByte_cases a with aDefined | aUnused <;> rcases ofByte_cases b with bDefined | bUnused
  · exact Or.inl (List.inj_on_of_nodup_map nodup aDefined bDefined same)
  · exact absurd same (apart aDefined bUnused)
  · exact absurd same.symm (apart bDefined aUnused)
  · exact Or.inr ⟨aUnused, bUnused⟩

end Opcode

end Dalvik
