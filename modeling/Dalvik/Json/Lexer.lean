import Dalvik.Json.Basic
import Dalvik.Text.Surrogate

namespace Dalvik

namespace Json

def isBlank (c : Char) : Bool := c = ' ' || c = '\n' || c = '\r' || c = '\t'

def hexValue? (c : Char) : Option Nat :=
  if '0' ≤ c ∧ c ≤ '9' then some (c.toNat - '0'.toNat)
  else if 'a' ≤ c ∧ c ≤ 'f' then some (c.toNat - 'a'.toNat + 10)
  else if 'A' ≤ c ∧ c ≤ 'F' then some (c.toNat - 'A'.toNat + 10)
  else none

/-- The code unit of four hexadecimal digits. -/
def codeUnit? (a b c d : Char) : Option Nat := do
  return ((← hexValue? a) * 16 + (← hexValue? b)) * 256 + (← hexValue? c) * 16 + (← hexValue? d)

/-- The character that a letter stands for after a backslash. -/
def unescape? (c : Char) : Option Char :=
  if c = '"' ∨ c = '\\' ∨ c = '/' then some c
  else if c = 'b' then some '\x08'
  else if c = 'f' then some '\x0c'
  else if c = 'n' then some '\n'
  else if c = 'r' then some '\r'
  else if c = 't' then some '\t'
  else none

/-- The code points of a string after its opening quotation mark, surrogates as they are written, and what follows
the closing one. -/
def scanString? : List Char → Option (List Nat × List Char)
  | [] => none
  | '"' :: rest => some ([], rest)
  | '\\' :: 'u' :: a :: b :: c :: d :: rest => do
    let unit ← codeUnit? a b c d
    let (units, rest) ← scanString? rest
    return (unit :: units, rest)
  | '\\' :: c :: rest => do
    let c ← unescape? c
    let (units, rest) ← scanString? rest
    return (c.toNat :: units, rest)
  | c :: rest =>
    if c.toNat < 0x20 ∨ c = '\\' then none
    else do
      let (units, rest) ← scanString? rest
      return (c.toNat :: units, rest)

/-- One digit at least, and what follows the digits. -/
def scanDigits? (text : List Char) : Option (List Char × List Char) :=
  match text.takeWhile Char.isDigit with
  | [] => none
  | digits => some (digits, text.dropWhile Char.isDigit)

/-- Whether a fraction follows, and what comes after it. -/
def scanFraction? : List Char → Option (Bool × List Char)
  | '.' :: rest => (scanDigits? rest).map fun (_, rest) => (true, rest)
  | rest => some (false, rest)

/-- Whether an exponent follows, and what comes after it. -/
def scanExponent? : List Char → Option (Bool × List Char)
  | 'e' :: '+' :: rest | 'e' :: '-' :: rest | 'E' :: '+' :: rest | 'E' :: '-' :: rest | 'e' :: rest | 'E' :: rest =>
    (scanDigits? rest).map fun (_, rest) => (true, rest)
  | rest => some (false, rest)

/-- The digits of a number after its sign. Zero is no integer if it is negative. -/
def scanUnsigned? (negative : Bool) (text : List Char) : Option (Option Int × List Char) := do
  let (digits, rest) ← scanDigits? text
  if digits.head? = some '0' ∧ digits ≠ ['0'] then none
  else
    let (fraction, rest) ← scanFraction? rest
    let (exponent, rest) ← scanExponent? rest
    let value := Nat.ofDigitChars 10 digits 0
    if fraction || exponent || (negative && value = 0) then return (none, rest)
    else return (some (if negative then -value else value), rest)

/-- The token that starts with `c`, and what follows it. -/
def scanToken? (c : Char) (rest : List Char) : Option (Token × List Char) :=
  match c, rest with
  | '[', rest => some (.arrayStart, rest)
  | ']', rest => some (.arrayEnd, rest)
  | '\x7b', rest => some (.objectStart, rest)
  | '\x7d', rest => some (.objectEnd, rest)
  | ',', rest => some (.comma, rest)
  | ':', rest => some (.colon, rest)
  | 'n', 'u' :: 'l' :: 'l' :: rest => some (.null, rest)
  | 't', 'r' :: 'u' :: 'e' :: rest => some (.bool true, rest)
  | 'f', 'a' :: 'l' :: 's' :: 'e' :: rest => some (.bool false, rest)
  | '"', rest => (scanString? rest).map fun (units, rest) =>
      (.string ((Surrogate.join? units).map String.ofList), rest)
  | '-', rest => (scanUnsigned? true rest).map fun (value, rest) => (.number value, rest)
  | c, rest => (scanUnsigned? false (c :: rest)).map fun (value, rest) => (.number value, rest)

theorem scanString?_shorter {text rest : List Char} {units : List Nat}
    (run : scanString? text = some (units, rest)) : rest.length < text.length := by
  fun_induction scanString? text generalizing units rest with
  | case1 => simp at run
  | case2 => simp_all
  | case3 a b c d after ih =>
    obtain ⟨unit, _, run⟩ := Option.bind_eq_some_iff.mp run
    obtain ⟨⟨units', rest'⟩, read, run⟩ := Option.bind_eq_some_iff.mp run
    cases run
    have := ih read
    simp only [List.length_cons]
    omega
  | case4 c after _ ih =>
    obtain ⟨char, _, run⟩ := Option.bind_eq_some_iff.mp run
    obtain ⟨⟨units', rest'⟩, read, run⟩ := Option.bind_eq_some_iff.mp run
    cases run
    have := ih read
    simp only [List.length_cons]
    omega
  | case5 => simp at run
  | case6 c after _ _ _ _ ih =>
    obtain ⟨⟨units', rest'⟩, read, run⟩ := Option.bind_eq_some_iff.mp run
    cases run
    have := ih read
    simp only [List.length_cons]
    omega

theorem scanDigits?_shorter {text digits rest : List Char} (run : scanDigits? text = some (digits, rest)) :
    rest.length < text.length := by
  have whole := congrArg List.length (List.takeWhile_append_dropWhile (p := Char.isDigit) (l := text))
  simp only [List.length_append] at whole
  unfold scanDigits? at run
  split at run
  · simp at run
  · rename_i found
    simp only [Option.some.injEq, Prod.mk.injEq] at run
    have nonempty := List.length_pos_iff.mpr found
    rw [← run.2]
    omega

theorem scanFraction?_no_longer {text rest : List Char} {found : Bool}
    (run : scanFraction? text = some (found, rest)) : rest.length ≤ text.length := by
  unfold scanFraction? at run
  split at run
  · obtain ⟨⟨digits, after⟩, read, same⟩ := Option.map_eq_some_iff.mp run
    cases same
    have := scanDigits?_shorter read
    simp only [List.length_cons]
    omega
  · cases run
    exact Nat.le_refl _

theorem scanExponent?_no_longer {text rest : List Char} {found : Bool}
    (run : scanExponent? text = some (found, rest)) : rest.length ≤ text.length := by
  unfold scanExponent? at run
  split at run
  case h_7 =>
    cases run
    exact Nat.le_refl _
  all_goals
    obtain ⟨⟨digits, after⟩, read, same⟩ := Option.map_eq_some_iff.mp run
    cases same
    have := scanDigits?_shorter read
    simp only [List.length_cons]
    omega

theorem scanUnsigned?_shorter {negative : Bool} {text rest : List Char} {value : Option Int}
    (run : scanUnsigned? negative text = some (value, rest)) : rest.length < text.length := by
  obtain ⟨⟨digits, afterDigits⟩, read, run⟩ := Option.bind_eq_some_iff.mp run
  have := scanDigits?_shorter read
  dsimp only at run
  split at run
  · simp at run
  · obtain ⟨⟨fraction, afterFraction⟩, read, run⟩ := Option.bind_eq_some_iff.mp run
    have := scanFraction?_no_longer read
    obtain ⟨⟨exponent, afterExponent⟩, read, run⟩ := Option.bind_eq_some_iff.mp run
    have shorter : afterExponent.length < text.length := by
      have := scanExponent?_no_longer read
      dsimp only at this
      omega
    dsimp only at run
    split at run <;> cases run <;> exact shorter

theorem scanToken?_no_longer {c : Char} {text rest : List Char} {token : Token}
    (run : scanToken? c text = some (token, rest)) : rest.length ≤ text.length := by
  unfold scanToken? at run
  split at run
  case h_10 =>
    obtain ⟨⟨units, after⟩, read, same⟩ := Option.map_eq_some_iff.mp run
    cases same
    exact Nat.le_of_lt (scanString?_shorter read)
  case h_11 =>
    obtain ⟨⟨value, after⟩, read, same⟩ := Option.map_eq_some_iff.mp run
    cases same
    exact Nat.le_of_lt (scanUnsigned?_shorter read)
  case h_12 =>
    obtain ⟨⟨value, after⟩, read, same⟩ := Option.map_eq_some_iff.mp run
    cases same
    exact Nat.le_of_lt_succ (scanUnsigned?_shorter read)
  case h_7 | h_8 | h_9 =>
    cases run
    simp only [List.length_cons]
    omega
  all_goals
    cases run
    exact Nat.le_refl _

/-- The tokens of a text, with blanks between them skipped. -/
def lex? (text : List Char) : Option (List Token) :=
  match text with
  | [] => some []
  | c :: rest =>
    if isBlank c then lex? rest
    else
      match scan : scanToken? c rest with
      | none => none
      | some (token, after) =>
        have := scanToken?_no_longer scan
        (lex? after).map (token :: ·)
termination_by text.length

end Json

end Dalvik
