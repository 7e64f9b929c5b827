import Dalvik.Json.Lexer
import Dalvik.Json.Printer
import Dalvik.Proofs.Numerals
import Dalvik.Proofs.Surrogates
import Mathlib.Data.List.Chain

namespace Dalvik

namespace Json

theorem lex?_blank_cons {c : Char} (blank : isBlank c = true) (text : List Char) :
    lex? (c :: text) = lex? text := by
  rw [lex?, if_pos blank]

theorem lex?_blanks_append {blanks : List Char} (blank : ∀ c ∈ blanks, isBlank c = true) (text : List Char) :
    lex? (blanks ++ text) = lex? text := by
  induction blanks with
  | nil => rfl
  | cons c blanks ih =>
    obtain ⟨first, later⟩ := List.forall_mem_cons.mp blank
    rw [List.cons_append, lex?_blank_cons first, ih later]

theorem lex?_of_scanToken? {c : Char} {text after : List Char} {token : Token} (visible : isBlank c = false)
    (scan : scanToken? c text = some (token, after)) : lex? (c :: text) = (lex? after).map (token :: ·) := by
  rw [lex?, if_neg (Bool.eq_false_iff.mp visible)]
  split
  · rename_i failed
    rw [failed] at scan
    cases scan
  · rename_i found
    rw [found] at scan
    cases scan
    rfl

theorem hexValue?_digitChar : ∀ n < 16, hexValue? n.digitChar = some n := by decide

theorem scanString?_letter {letter c : Char} (unescaped : unescape? letter = some c) (rest : List Char) :
    scanString? ('\\' :: letter :: rest) =
      (scanString? rest).map fun (units, rest) => (c.toNat :: units, rest) := by
  have known : letter ≠ 'u' := by
    rintro rfl
    exact absurd unescaped (by simp [show unescape? 'u' = none by decide])
  rw [scanString?.eq_4 _ _ (by simp [known]), unescaped]
  cases scanString? rest <;> rfl

theorem scanString?_unit {c : Char} (control : c.toNat < 0x20) (rest : List Char) :
    scanString? ('\\' :: 'u' :: '0' :: '0' :: (c.toNat / 16).digitChar :: (c.toNat % 16).digitChar :: rest) =
      (scanString? rest).map fun (units, rest) => (c.toNat :: units, rest) := by
  have unit : codeUnit? '0' '0' (c.toNat / 16).digitChar (c.toNat % 16).digitChar = some c.toNat := by
    rw [codeUnit?, show hexValue? '0' = some 0 by decide, hexValue?_digitChar (c.toNat / 16) (by omega),
      hexValue?_digitChar (c.toNat % 16) (by omega)]
    simp only [Option.pure_def, Option.bind_eq_bind, Option.bind_some, Option.some.injEq]
    omega
  rw [scanString?, unit]
  cases scanString? rest <;> rfl

theorem scanString?_plain {c : Char} (quotation : c ≠ '"') (backslash : c ≠ '\\') (visible : ¬ c.toNat < 0x20)
    (rest : List Char) :
    scanString? (c :: rest) = (scanString? rest).map fun (units, rest) => (c.toNat :: units, rest) := by
  rw [scanString?.eq_def]
  split
  case h_1 => contradiction
  case h_5 _ same =>
    cases same
    rw [if_neg (not_or.mpr ⟨visible, backslash⟩)]
    cases scanString? rest <;> rfl
  all_goals
    rename_i same
    cases same
    contradiction

/-- Each character is read back from its own escape, whatever comes next. -/
theorem scanString?_escape (c : Char) (rest : List Char) :
    scanString? (escape c ++ rest) = (scanString? rest).map fun (units, rest) => (c.toNat :: units, rest) := by
  unfold escape
  split_ifs with quotation backslash _ _ _ _ _ control
  -- the seven characters with a letter of their own
  iterate 7
    · subst c
      exact scanString?_letter rfl rest
  · exact scanString?_unit control rest
  · exact scanString?_plain quotation backslash control rest

theorem scanString?_flatMap_escape (chars rest : List Char) :
    scanString? (chars.flatMap escape ++ '"' :: rest) = some (chars.map Char.toNat, rest) := by
  induction chars with
  | nil => rw [List.flatMap_nil, List.nil_append, scanString?, List.map_nil]
  | cons c chars ih =>
    rw [List.flatMap_cons, List.append_assoc, scanString?_escape, ih, Option.map_some, List.map_cons]

theorem scanToken?_quotation (text : List Char) :
    scanToken? '"' text = (scanString? text).map fun (units, rest) =>
      (.string ((Surrogate.join? units).map String.ofList), rest) := rfl

theorem lex?_quoted (value : String) (rest : List Char) :
    lex? ((quoted value).toList ++ rest) = (lex? rest).map (.string (some value) :: ·) := by
  have whole : (quoted value).toList ++ rest = '"' :: (value.toList.flatMap escape ++ '"' :: rest) := by
    rw [quoted, String.toList_append, String.toList_append, String.toList_ofList (l := value.toList.flatMap escape)]
    exact List.append_assoc ..
  have scan : scanToken? '"' (value.toList.flatMap escape ++ '"' :: rest) = some (.string (some value), rest) := by
    simp only [scanToken?_quotation, scanString?_flatMap_escape, Option.map_some, Surrogate.join?_map_toNat,
      String.ofList_toList]
  rw [whole, lex?_of_scanToken? (by decide) scan]

theorem lex?_surrogate (rest : List Char) :
    lex? ('"' :: '\\' :: 'u' :: 'd' :: '8' :: '0' :: '0' :: '"' :: rest) = (lex? rest).map (.string none :: ·) := by
  have unit : codeUnit? 'd' '8' '0' '0' = some 0xd800 := by decide
  have alone : Surrogate.join? [0xd800] = none := by decide
  have body : scanString? ('\\' :: 'u' :: 'd' :: '8' :: '0' :: '0' :: '"' :: rest) = some ([0xd800], rest) := by
    rw [scanString?, unit, scanString?]
    rfl
  refine lex?_of_scanToken? (by decide) ?_
  simp only [scanToken?_quotation, body, Option.map_some, alone, Option.map_none]

/-- A text that cannot continue a number in front of it. -/
def EndsNumber (rest : List Char) : Prop := ∀ c ∈ rest.head?, c.isDigit = false ∧ c ≠ '.' ∧ c ≠ 'e' ∧ c ≠ 'E'

theorem scanDigits?_append {digits rest : List Char} (nonempty : digits ≠ []) (all : ∀ c ∈ digits, c.isDigit = true)
    (ends : EndsNumber rest) : scanDigits? (digits ++ rest) = some (digits, rest) := by
  have stops : rest.takeWhile Char.isDigit = [] ∧ rest.dropWhile Char.isDigit = rest := by
    cases rest with
    | nil => exact ⟨rfl, rfl⟩
    | cons c rest =>
      have other := Bool.eq_false_iff.mp (ends c rfl).1
      exact ⟨List.takeWhile_cons_of_neg other, List.dropWhile_cons_of_neg other⟩
  unfold scanDigits?
  rw [List.takeWhile_append_of_pos all, List.dropWhile_append_of_pos all, stops.1, stops.2, List.append_nil]
  split
  · contradiction
  · rfl

theorem scanFraction?_none {rest : List Char} (ends : EndsNumber rest) :
    scanFraction? rest = some (false, rest) := by
  unfold scanFraction?
  split
  · exact absurd rfl (ends '.' rfl).2.1
  · rfl

theorem scanExponent?_none {rest : List Char} (ends : EndsNumber rest) :
    scanExponent? rest = some (false, rest) := by
  unfold scanExponent?
  split
  case h_7 => rfl
  case h_1 | h_2 | h_5 => exact absurd rfl (ends 'e' rfl).2.2.1
  case h_3 | h_4 | h_6 => exact absurd rfl (ends 'E' rfl).2.2.2

theorem isDigit_toDigits (n : Nat) : ∀ c ∈ Nat.toDigits 10 n, c.isDigit = true :=
  fun _ member => Nat.isDigit_of_mem_toDigits (by decide) (by decide) member

/-- Digits are read to their end, and only negative zero is no integer. -/
theorem scanUnsigned?_toDigits (negative : Bool) (n : Nat) {rest : List Char} (ends : EndsNumber rest) :
    scanUnsigned? negative (Nat.toDigits 10 n ++ rest) =
      some (if negative && n = 0 then none else some (if negative then -(n : Int) else n), rest) := by
  have minimal : ¬ ((Nat.toDigits 10 n).head? = some '0' ∧ Nat.toDigits 10 n ≠ ['0']) := by
    rintro ⟨zero, several⟩
    rcases Nat.eq_zero_or_pos n with rfl | positive
    · exact several (Nat.toDigits_zero 10)
    · exact head?_toDigits_ne_zero (by decide) (by decide) positive zero
  simp only [scanUnsigned?, scanDigits?_append Nat.toDigits_ne_nil (isDigit_toDigits n) ends, if_neg minimal,
    scanFraction?_none ends, scanExponent?_none ends, Nat.ofDigitChars_ten_toDigits, Option.bind_eq_bind,
    Option.bind_some, Option.pure_def, Bool.false_or]
  split <;> rfl

theorem scanToken?_digit {c : Char} (digit : c.isDigit = true) (rest : List Char) :
    scanToken? c rest = (scanUnsigned? false (c :: rest)).map fun (value, rest) => (.number value, rest) := by
  unfold scanToken?
  split
  case h_12 => rfl
  all_goals exact absurd digit (by decide)

theorem not_isBlank_of_isDigit {c : Char} (digit : c.isDigit = true) : isBlank c = false := by
  rw [Bool.eq_false_iff]
  intro blank
  simp only [isBlank, Bool.or_eq_true, decide_eq_true_eq] at blank
  rcases blank with ((rfl | rfl) | rfl) | rfl <;> exact absurd digit (by decide)

theorem lex?_digits (n : Nat) {rest : List Char} (ends : EndsNumber rest) :
    lex? (Nat.toDigits 10 n ++ rest) = (lex? rest).map (.number (some n) :: ·) := by
  obtain ⟨c, digits, whole⟩ := List.exists_cons_of_ne_nil (Nat.toDigits_ne_nil (n := n) (b := 10))
  have digit : c.isDigit = true := isDigit_toDigits n c (by simp [whole])
  have scan := scanUnsigned?_toDigits false n ends
  rw [whole, List.cons_append] at scan ⊢
  refine lex?_of_scanToken? (not_isBlank_of_isDigit digit) ?_
  rw [scanToken?_digit digit, scan]
  rfl

theorem lex?_minus (n : Nat) {rest : List Char} (ends : EndsNumber rest) :
    lex? ('-' :: (Nat.toDigits 10 n ++ rest)) =
      (lex? rest).map (.number (if n = 0 then none else some (-(n : Int))) :: ·) := by
  refine lex?_of_scanToken? (by decide) ?_
  show Option.map _ (scanUnsigned? true _) = _
  rw [scanUnsigned?_toDigits true n ends, Option.map_some]
  simp

theorem lex?_signedDecimal (v : Int) {rest : List Char} (ends : EndsNumber rest) :
    lex? ((signedDecimal v).toList ++ rest) = (lex? rest).map (.number (some v) :: ·) := by
  have digits : (decimal v.natAbs).toList = Nat.toDigits 10 v.natAbs := String.toList_ofList
  rw [signedDecimal]
  split
  · rename_i negative
    have nonzero : v.natAbs ≠ 0 := by omega
    have value : -(v.natAbs : Int) = v := by omega
    rw [String.toList_append, digits]
    show lex? ('-' :: (Nat.toDigits 10 v.natAbs ++ rest)) = _
    rw [lex?_minus _ ends, if_neg nonzero, value]
  · have value : (v.natAbs : Int) = v := by omega
    rw [digits, lex?_digits _ ends, value]

def Token.isNumber : Token → Bool
  | number _ => true
  | _ => false

/-- A token is read back from its text, if what follows cannot lengthen a number. -/
theorem lex?_text (token : Token) {rest : List Char} (ends : token.isNumber = true → EndsNumber rest) :
    lex? (token.text.toList ++ rest) = (lex? rest).map (token :: ·) := by
  cases token with
  | bool value => cases value <;> exact lex?_of_scanToken? (by decide) rfl
  | number value =>
    cases value with
    | none => exact lex?_minus 0 (ends rfl)
    | some value => exact lex?_signedDecimal value (ends rfl)
  | string value =>
    cases value with
    | none => exact lex?_surrogate rest
    | some value => exact lex?_quoted value rest
  | null | arrayStart | arrayEnd | objectStart | objectEnd | comma | colon =>
    exact lex?_of_scanToken? (by decide) rfl

theorem endsNumber_text {token : Token} (other : token.isNumber = false) (rest : List Char) :
    EndsNumber (token.text.toList ++ rest) := by
  have starts : ∃ c ∈ token.text.toList.head?, c.isDigit = false ∧ c ≠ '.' ∧ c ≠ 'e' ∧ c ≠ 'E' := by
    cases token with
    | bool value => cases value <;> exact ⟨_, rfl, by decide⟩
    | number value => cases other
    | string value =>
      cases value with
      | none => exact ⟨'"', rfl, by decide⟩
      | some value =>
        refine ⟨'"', ?_, by decide⟩
        rw [Token.text, quoted, String.toList_append, String.toList_append]
        rfl
    | null | arrayStart | arrayEnd | objectStart | objectEnd | comma | colon => exact ⟨_, rfl, by decide⟩
  obtain ⟨c, first, ends⟩ := starts
  intro d member
  rw [List.head?_append, first] at member
  cases member
  exact ends

/-- Two neighbours that do not run into each other when they are written side by side. -/
def Token.Apart (first second : Token) : Prop := first.isNumber = true → second.isNumber = false

theorem lex?_flatMap_text {tokens : List Token} (apart : tokens.IsChain Token.Apart) {rest : List Char}
    (ends : EndsNumber rest) :
    lex? (tokens.flatMap (·.text.toList) ++ rest) = (lex? rest).map (tokens ++ ·) := by
  induction tokens with
  | nil => exact Option.map_id'.symm
  | cons token tokens ih =>
    obtain ⟨next, later⟩ := List.isChain_cons.mp apart
    -- a number is the one token that can run into what follows it
    have endsFirst : token.isNumber = true → EndsNumber (tokens.flatMap (·.text.toList) ++ rest) := by
      intro number
      cases tokens with
      | nil => exact ends
      | cons second tokens =>
        rw [List.flatMap_cons, List.append_assoc]
        exact endsNumber_text (next second rfl number) _
    rw [List.flatMap_cons, List.append_assoc, lex?_text token endsFirst, ih later, Option.map_map]
    rfl

end Json

end Dalvik
