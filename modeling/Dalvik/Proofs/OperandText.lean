import Mathlib.Algebra.Ring.Int.Defs
import Dalvik.Proofs.InstructionText

namespace Dalvik

/-- Digits of `base`, one at least. -/
def IsNumeral (base : Nat) (digits : List Char) : Prop :=
  digits ≠ [] ∧ ∀ c ∈ digits, ∃ d < base, c = d.digitChar

instance (base : Nat) (digits : List Char) : Decidable (IsNumeral base digits) :=
  inferInstanceAs (Decidable (digits ≠ [] ∧ ∀ c ∈ digits, ∃ d < base, c = d.digitChar))

/-- The number that the text stands for. None is read from a text that has other characters than digits, or has
none. -/
def readNumeral? (base : Nat) (text : List Char) : Option Nat :=
  if IsNumeral base text then some (numeralValue base text) else none

/-- The number that digits behind one sign, or without a sign, stand for. -/
def readSigned? (base : Nat) : List Char → Option Int
  | '-' :: digits => (readNumeral? base digits).map fun n => -(n : Int)
  | '+' :: digits => (readNumeral? base digits).map fun n => (n : Int)
  | digits => (readNumeral? base digits).map fun n => (n : Int)

/-- Lowercase hexadecimal digits, at least `width` of them and more only if the first is not a zero. -/
structure IsHexSpelling (width : Nat) (digits : List Char) : Prop where
  numeral : IsNumeral 16 digits
  wide : width ≤ digits.length
  tight : width < digits.length → digits.head? ≠ some '0'

theorem isNumeral_decimal (n : Nat) : IsNumeral 10 (decimal n).toList := by
  rw [decimal, String.toList_ofList]
  exact ⟨Nat.toDigits_ne_nil, fun _ => exists_digitChar_of_mem_toDigits (by decide)⟩

theorem isNumeral_hexPadded (width n : Nat) : IsNumeral 16 (hexPadded width n).toList := by
  refine ⟨fun empty => ?_, fun _ => isDigit_of_mem_hexPadded⟩
  rw [toList_hexPadded] at empty
  exact Nat.toDigits_ne_nil (List.append_eq_nil_iff.mp empty).2

theorem IsNumeral.append_zeros {base : Nat} (positive : 0 < base) {digits : List Char}
    (numeral : IsNumeral base digits) (count : Nat) : IsNumeral base (digits ++ List.replicate count '0') := by
  refine ⟨fun empty => numeral.1 (List.append_eq_nil_iff.mp empty).1, fun c member => ?_⟩
  rcases List.mem_append.mp member with digit | zero
  · exact numeral.2 c digit
  · exact ⟨0, positive, List.eq_of_mem_replicate zero⟩

theorem isHexSpelling_hexPadded {width : Nat} (positive : 0 < width) (n : Nat) :
    IsHexSpelling width (hexPadded width n).toList := by
  have length : (hexPadded width n).toList.length = max width (Nat.toDigits 16 n).length := by
    rw [hexPadded, String.toList_ofList, List.length_leftpad]
  refine ⟨isNumeral_hexPadded width n, length ▸ Nat.le_max_left .., fun long => ?_⟩
  -- A number that is longer than the width has no zeros put before it, and is not zero itself.
  have unpadded : width < (Nat.toDigits 16 n).length := by omega
  have nonzero : 0 < n := by
    refine Nat.pos_of_ne_zero fun zero => ?_
    rw [zero, Nat.toDigits_zero, List.length_singleton] at unpadded
    omega
  rw [← hex_eq_hexPadded (Nat.le_of_lt unpadded), hex, String.toList_ofList]
  exact head?_toDigits_ne_zero (by decide) (by decide) nonzero

theorem isHexSpelling_hex (n : Nat) : IsHexSpelling 1 (hex n).toList := by
  rw [hex_eq_hexPadded Nat.length_toDigits_pos]
  exact isHexSpelling_hexPadded Nat.one_pos n

/-- A numeral with or without a sign is read as the number that it stands for. -/
theorem readSigned?_sign_append {base : Nat} (narrow : base ≤ 16) {sign digits : List Char}
    (signs : sign = [] ∨ sign = ['-'] ∨ sign = ['+']) (numeral : IsNumeral base digits) :
    readSigned? base (sign ++ digits) = some (signedNumeralValue base (sign ++ digits)) := by
  have reads : readNumeral? base digits = some (numeralValue base digits) := if_pos numeral
  rcases signs with rfl | rfl | rfl
  · have all : ∀ c ∈ digits, IsDigit c := by
      intro c member
      obtain ⟨d, small, digit⟩ := numeral.2 c member
      exact ⟨d, by omega, digit⟩
    rw [List.nil_append, signedNumeralValue_digits base all]
    unfold readSigned?
    split
    · exact absurd (all '-' (List.mem_cons_self ..)) (by decide)
    · exact absurd (all '+' (List.mem_cons_self ..)) (by decide)
    · rw [reads]
      rfl
  · show (readNumeral? base digits).map (fun n => -(n : Int)) = _
    rw [reads]
    rfl
  · show (readNumeral? base digits).map (fun n => (n : Int)) = _
    rw [reads]
    rfl

/-- Only a minus sign can stand before the digits. -/
theorem exists_minus_append (digits : Nat → String) (v : Int) :
    ∃ sign, (sign = [] ∨ sign = ['-']) ∧
      (if v < 0 then "-" ++ digits v.natAbs else digits v.natAbs).toList = sign ++ (digits v.natAbs).toList := by
  by_cases negative : v < 0
  · refine ⟨['-'], Or.inr rfl, ?_⟩
    rw [if_pos negative, String.toList_append]
    rfl
  · refine ⟨[], Or.inl rfl, ?_⟩
    rw [if_neg negative, List.nil_append]

/-- A number read in two's complement of a part of the word, and then of the whole word, is kept modulo that
part. -/
theorem toInt_ofInt_bmod_emod {m x : Nat} (part : m ∣ Int64.size) (small : x < m) :
    (Int64.ofInt ((x : Int).bmod m)).toInt % m = x := by
  have part' : (m : Int) ∣ (Int64.size : Nat) := Int.natCast_dvd_natCast.mpr part
  calc (Int64.ofInt ((x : Int).bmod m)).toInt % m
      = ((x : Int).bmod m).bmod Int64.size % m := by rw [Int64.toInt_ofInt]
    _ = ((x : Int).bmod m).bmod Int64.size % (Int64.size : Nat) % m := (Int.emod_emod_of_dvd _ part').symm
    _ = (x : Int).bmod m % (Int64.size : Nat) % m := by rw [Int.bmod_emod]
    _ = (x : Int).bmod m % m := Int.emod_emod_of_dvd _ part'
    _ = x % m := Int.bmod_emod
    _ = x := Int.emod_eq_of_lt (by omega) (by omega)

namespace Operand

theorem readSigned?_literal (value : Int64) : readSigned? 10 (literal value).text.toList = some value.toInt := by
  obtain ⟨sign, signs, chars⟩ := exists_minus_append decimal value.toInt
  show readSigned? 10 (signedDecimal value.toInt).toList = some value.toInt
  rw [signedDecimal, chars, readSigned?_sign_append (by decide) (signs.imp_right Or.inl) (isNumeral_decimal _),
    ← chars]
  exact congrArg some (signedNumeralValue_signedDecimal value.toInt)

theorem exists_spelling_target (address : Int64) :
    ∃ sign digits, (target address).text.toList = sign ++ digits ∧ (sign = [] ∨ sign = ['-']) ∧
      IsHexSpelling 4 digits := by
  obtain ⟨sign, signs, chars⟩ := exists_minus_append (hexPadded 4) address.toInt
  exact ⟨sign, _, chars, signs, isHexSpelling_hexPadded (by decide) _⟩

theorem readSigned?_target (address : Int64) :
    readSigned? 16 (target address).text.toList = some address.toInt := by
  obtain ⟨sign, digits, chars, signs, spelling⟩ := exists_spelling_target address
  rw [chars, readSigned?_sign_append (by decide) (signs.imp_right Or.inl) spelling.numeral, ← chars]
  exact congrArg some (signedNumeralValue_addressText address)

theorem exists_spelling_farTarget (address : Int64) :
    ∃ sign digits, (farTarget address).text.toList = sign :: digits ∧ (sign = '-' ∨ sign = '+') ∧
      IsHexSpelling 1 digits := by
  simp only [text, signedAddressText, String.toList_append]
  split
  · exact ⟨'-', _, rfl, Or.inl rfl, isHexSpelling_hex _⟩
  · exact ⟨'+', _, rfl, Or.inr rfl, isHexSpelling_hex _⟩

theorem readSigned?_farTarget (address : Int64) :
    readSigned? 16 (farTarget address).text.toList = some address.toInt := by
  obtain ⟨sign, digits, chars, signs, spelling⟩ := exists_spelling_farTarget address
  have oneSign : [sign] = [] ∨ [sign] = ['-'] ∨ [sign] = ['+'] :=
    Or.inr (signs.imp (congrArg ([·])) (congrArg ([·])))
  rw [chars, ← List.singleton_append, readSigned?_sign_append (by decide) oneSign spelling.numeral,
    List.singleton_append, ← chars]
  exact congrArg some (signedNumeralValue_signedAddressText address)

/-- The bits moved up by zeros behind their digits. -/
theorem readNumeral?_high (bits : UInt16) (wide : Bool) :
    ∃ digits, (high bits wide).text.toList = '@' :: digits ∧
      readNumeral? 16 digits = some (bits.toNat * 16 ^ (if wide then 12 else 4)) := by
  refine ⟨_, toList_text_high bits wide, ?_⟩
  have numeral := (isHexSpelling_hex bits.toNat).numeral.append_zeros (by decide) (if wide then 12 else 4)
  rw [readNumeral?, if_pos numeral, numeralValue_append_zeros, numeralValue_hex]

/-- The bits moved up by a shift in two's complement. -/
theorem literalValue?_high (bits : UInt16) (wide : Bool) :
    ∃ value, (high bits wide).literalValue? = some value ∧
      value.toInt % 2 ^ (if wide then 64 else 32) = bits.toNat * 16 ^ (if wide then 12 else 4) := by
  have small : bits.toNat < 0x10000 := bits.toNat_lt
  cases wide with
  | false =>
    have moved : bits.toNat * 0x10000 < 0x100000000 := by omega
    exact ⟨_, rfl, toInt_ofInt_bmod_emod (by decide) moved⟩
  | true =>
    have moved : bits.toNat * 0x1000000000000 < 0x10000000000000000 := by omega
    exact ⟨_, rfl, toInt_ofInt_bmod_emod (by decide) moved⟩

/-- The text of an operand denotes its value. A literal is read back as a decimal, an address as a hexadecimal of
four digits at least, a far address with its sign and no superfluous zeros. The digits of high bits are those of
the literal they stand for, as a word of 32 bits or of 64. -/
theorem text_denotes_value :
    (∀ value : Int64, readSigned? 10 (literal value).text.toList = some value.toInt) ∧
    (∀ address : Int64,
      (∃ sign digits, (target address).text.toList = sign ++ digits ∧ (sign = [] ∨ sign = ['-']) ∧
        IsHexSpelling 4 digits) ∧
      readSigned? 16 (target address).text.toList = some address.toInt ∧ (target address).target? = some address) ∧
    (∀ address : Int64,
      (∃ sign digits, (farTarget address).text.toList = sign :: digits ∧ (sign = '-' ∨ sign = '+') ∧
        IsHexSpelling 1 digits) ∧
      readSigned? 16 (farTarget address).text.toList = some address.toInt ∧
      (farTarget address).target? = some address) ∧
    ∀ (bits : UInt16) (wide : Bool), ∃ digits n value, (high bits wide).text.toList = '@' :: digits ∧
      readNumeral? 16 digits = some n ∧ (high bits wide).literalValue? = some value ∧
      (n : Int) = value.toInt % 2 ^ (if wide then 64 else 32) := by
  refine ⟨readSigned?_literal, fun address => ?_, fun address => ?_, fun bits wide => ?_⟩
  · exact ⟨exists_spelling_target address, readSigned?_target address, rfl⟩
  · exact ⟨exists_spelling_farTarget address, readSigned?_farTarget address, rfl⟩
  · obtain ⟨digits, chars, reads⟩ := readNumeral?_high bits wide
    obtain ⟨value, shifted, moved⟩ := literalValue?_high bits wide
    refine ⟨digits, _, value, chars, reads, shifted, ?_⟩
    rw [moved]
    push_cast
    rfl

-- The absolute value of the least address is no address.
example :
    (target Int64.minValue).text = "-8000000000000000" ∧ (farTarget Int64.minValue).text = "-8000000000000000" := by
  decide

end Operand

end Dalvik
