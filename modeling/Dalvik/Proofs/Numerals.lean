import Mathlib.Algebra.Ring.Nat
import Mathlib.Data.List.Basic
import Dalvik.Numeral

namespace Dalvik

/-- The number that a digit stands for, in bases up to sixteen. -/
def digitValue (c : Char) : Nat := if c.isDigit then c.toNat - '0'.toNat else c.toNat - 'a'.toNat + 10

/-- The number that a row of digits stands for. -/
def numeralValue (base : Nat) (digits : List Char) : Nat := digits.foldl (fun n c => base * n + digitValue c) 0

/-- The number that digits behind a sign, or without one, stand for. -/
def signedNumeralValue (base : Nat) : List Char → Int
  | '-' :: digits => -(numeralValue base digits : Int)
  | '+' :: digits => numeralValue base digits
  | digits => numeralValue base digits

theorem digitValue_digitChar {n : Nat} (small : n < 16) : digitValue n.digitChar = n := by
  have all : ∀ n < 16, digitValue n.digitChar = n := by decide
  exact all n small

theorem numeralValue_append_singleton (base : Nat) (digits : List Char) (c : Char) :
    numeralValue base (digits ++ [c]) = base * numeralValue base digits + digitValue c := by
  rw [numeralValue, List.foldl_append]
  rfl

/-- A number is read back from its digits. -/
theorem numeralValue_toDigits {base : Nat} (two : 1 < base) (narrow : base ≤ 16) (n : Nat) :
    numeralValue base (Nat.toDigits base n) = n := by
  induction n using Nat.strongRecOn with
  | ind n ih =>
    by_cases single : n < base
    · rw [Nat.toDigits_of_lt_base single]
      simp only [numeralValue, List.foldl_cons, List.foldl_nil, digitValue_digitChar (show n < 16 by omega)]
      omega
    · have shorter : n / base < n := Nat.div_lt_self (by omega) two
      have last : n % base < base := Nat.mod_lt n (by omega)
      rw [Nat.toDigits_of_base_le two (Nat.not_lt.mp single), numeralValue_append_singleton, ih _ shorter,
        digitValue_digitChar (by omega)]
      exact Nat.div_add_mod n base

/-- Zeros in front of a number do not count. -/
theorem numeralValue_zeros_append (base count : Nat) (digits : List Char) :
    numeralValue base (List.replicate count '0' ++ digits) = numeralValue base digits := by
  induction count with
  | zero => rfl
  | succ count ih =>
    have zero : base * 0 + digitValue '0' = 0 := by simp [show digitValue '0' = 0 by decide]
    rw [List.replicate_succ, List.cons_append, numeralValue, List.foldl_cons, zero]
    exact ih

/-- Zeros behind a number move its digits up. -/
theorem numeralValue_append_zeros (base count : Nat) (digits : List Char) :
    numeralValue base (digits ++ List.replicate count '0') = numeralValue base digits * base ^ count := by
  induction count with
  | zero => rw [List.replicate_zero, List.append_nil, Nat.pow_zero, Nat.mul_one]
  | succ count ih =>
    have zero : digitValue '0' = 0 := by decide
    rw [List.replicate_succ', ← List.append_assoc, numeralValue_append_singleton, ih, zero, Nat.pow_succ]
    rw [Nat.add_zero, Nat.mul_left_comm, Nat.mul_comm base]

/-- A character that stands in numerals of a base up to sixteen. -/
def IsDigit (c : Char) : Prop := ∃ d < 16, c = d.digitChar

instance (c : Char) : Decidable (IsDigit c) := inferInstanceAs (Decidable (∃ d < 16, c = d.digitChar))

theorem exists_digitChar_of_mem_toDigits {base n : Nat} (two : 1 < base) {c : Char}
    (member : c ∈ Nat.toDigits base n) : ∃ d < base, c = d.digitChar := by
  induction n using Nat.strongRecOn with
  | ind n ih =>
    by_cases single : n < base
    · rw [Nat.toDigits_of_lt_base single, List.mem_singleton] at member
      exact ⟨n, single, member⟩
    · rw [Nat.toDigits_of_base_le two (Nat.not_lt.mp single), List.mem_append, List.mem_singleton] at member
      rcases member with front | rfl
      · exact ih _ (Nat.div_lt_self (by omega) two) front
      · exact ⟨n % base, Nat.mod_lt n (by omega), rfl⟩

theorem isDigit_of_mem_toDigits {base n : Nat} (two : 1 < base) (narrow : base ≤ 16) {c : Char}
    (member : c ∈ Nat.toDigits base n) : IsDigit c := by
  obtain ⟨d, small, digit⟩ := exists_digitChar_of_mem_toDigits two member
  exact ⟨d, by omega, digit⟩

/-- Only zero is written with a zero in front. -/
theorem head?_toDigits_ne_zero {base n : Nat} (two : 1 < base) (narrow : base ≤ 16) (positive : 0 < n) :
    (Nat.toDigits base n).head? ≠ some '0' := by
  induction n using Nat.strongRecOn with
  | ind n ih =>
    by_cases single : n < base
    · have all : ∀ n < 16, 0 < n → [n.digitChar].head? ≠ some '0' := by decide
      rw [Nat.toDigits_of_lt_base single]
      exact all n (by omega) positive
    · have wide : base ≤ n := Nat.not_lt.mp single
      rw [Nat.toDigits_of_base_le two wide, List.head?_append_of_ne_nil _ Nat.toDigits_ne_nil]
      exact ih (n / base) (Nat.div_lt_self positive two) (Nat.div_pos wide (by omega))

theorem signedNumeralValue_digits (base : Nat) {digits : List Char} (all : ∀ c ∈ digits, IsDigit c) :
    signedNumeralValue base digits = numeralValue base digits := by
  unfold signedNumeralValue
  split
  · exact absurd (all '-' (List.mem_cons_self ..)) (by decide)
  · exact absurd (all '+' (List.mem_cons_self ..)) (by decide)
  · rfl

theorem numeralValue_decimal (n : Nat) : numeralValue 10 (decimal n).toList = n := by
  rw [decimal, String.toList_ofList]
  exact numeralValue_toDigits (by decide) (by decide) n

theorem isDigit_of_mem_decimal {n : Nat} {c : Char} (member : c ∈ (decimal n).toList) : IsDigit c := by
  rw [decimal, String.toList_ofList] at member
  exact isDigit_of_mem_toDigits (by decide) (by decide) member

theorem decimal_injective : Function.Injective decimal := by
  intro n m same
  rw [← numeralValue_decimal n, same, numeralValue_decimal]

theorem toList_hexPadded (width n : Nat) :
    (hexPadded width n).toList = List.replicate (width - (Nat.toDigits 16 n).length) '0' ++ Nat.toDigits 16 n := by
  rw [hexPadded, String.toList_ofList, List.leftpad]

theorem numeralValue_hexPadded (width n : Nat) : numeralValue 16 (hexPadded width n).toList = n := by
  rw [toList_hexPadded, numeralValue_zeros_append]
  exact numeralValue_toDigits (by decide) (by decide) n

theorem isDigit_of_mem_hexPadded {width n : Nat} {c : Char} (member : c ∈ (hexPadded width n).toList) :
    IsDigit c := by
  rw [toList_hexPadded] at member
  rcases List.mem_append.mp member with zero | digit
  · rw [List.eq_of_mem_replicate zero]
    decide
  · exact isDigit_of_mem_toDigits (by decide) (by decide) digit

/-- Nothing is put before a number that fills the width. -/
theorem hex_eq_hexPadded {width n : Nat} (full : width ≤ (Nat.toDigits 16 n).length) :
    hex n = hexPadded width n := by
  rw [hex, hexPadded, List.leftpad, Nat.sub_eq_zero_of_le full]
  rfl

theorem numeralValue_hex (n : Nat) : numeralValue 16 (hex n).toList = n := by
  rw [hex_eq_hexPadded (Nat.zero_le _), numeralValue_hexPadded]

theorem isDigit_of_mem_hex {n : Nat} {c : Char} (member : c ∈ (hex n).toList) : IsDigit c := by
  rw [hex_eq_hexPadded (Nat.zero_le _)] at member
  exact isDigit_of_mem_hexPadded member

/-- A number is read back from its digits with a minus sign in front of them if it is negative. -/
theorem signedNumeralValue_minus {base : Nat} {digits : Nat → String}
    (all : ∀ n, ∀ c ∈ (digits n).toList, IsDigit c)
    (reads : ∀ n, numeralValue base (digits n).toList = n) (v : Int) :
    signedNumeralValue base (if v < 0 then "-" ++ digits v.natAbs else digits v.natAbs).toList = v := by
  by_cases negative : v < 0
  · rw [if_pos negative, String.toList_append]
    show -(numeralValue base (digits v.natAbs).toList : Int) = v
    rw [reads]
    omega
  · rw [if_neg negative, signedNumeralValue_digits base (all v.natAbs), reads]
    omega

theorem signedNumeralValue_signedDecimal (v : Int) : signedNumeralValue 10 (signedDecimal v).toList = v :=
  signedNumeralValue_minus (fun _ _ => isDigit_of_mem_decimal) numeralValue_decimal v

end Dalvik
