import Mathlib.Data.List.DropRight
import Dalvik.Listing
import Dalvik.Proofs.Numerals

namespace Dalvik

def byteDigits (b : UInt8) : List Char := [(b.toNat / 16).digitChar, (b.toNat % 16).digitChar]

/-- Two lowercase hexadecimal digits for each byte. -/
def hexDump (bytes : List UInt8) : List Char := bytes.flatMap byteDigits

theorem toList_hexPadded_byte (b : UInt8) : (hexPadded 2 b.toNat).toList = byteDigits b := by
  have bound := b.toNat_lt
  rw [toList_hexPadded, byteDigits]
  by_cases single : b.toNat < 16
  · rw [Nat.toDigits_of_lt_base single, Nat.div_eq_of_lt single, Nat.mod_eq_of_lt single]
    rfl
  · have high : b.toNat / 16 < 16 := by omega
    rw [Nat.toDigits_of_base_le (by decide) (Nat.not_lt.mp single), Nat.toDigits_of_lt_base high]
    rfl

theorem isDigit_of_mem_byteDigits {b : UInt8} {c : Char} (member : c ∈ byteDigits b) : IsDigit c := by
  rw [← toList_hexPadded_byte] at member
  exact isDigit_of_mem_hexPadded member

theorem isDigit_of_mem_hexDump {bytes : List UInt8} {c : Char} (member : c ∈ hexDump bytes) : IsDigit c := by
  obtain ⟨b, _, inByte⟩ := List.mem_flatMap.mp member
  exact isDigit_of_mem_byteDigits inByte

namespace Listing

/-- What follows the first place where the mark stands. -/
def afterFirst (mark : List Char) : List Char → List Char
  | [] => []
  | c :: rest => if mark <+: c :: rest then (c :: rest).drop mark.length else afterFirst mark rest

/-- The hexadecimal column of a line: what stands between the first colon with a blank behind it and the first bar,
less the blanks at its end. -/
def columnOf (line : String) : List Char :=
  (afterFirst ": ".toList (line.toList.takeWhile (· ≠ '|'))).rdropWhile (· = ' ')

/-- The text without the places where three dots stand. -/
def withoutEllipses : List Char → List Char
  | '.' :: '.' :: '.' :: rest => withoutEllipses rest
  | c :: rest => c :: withoutEllipses rest
  | [] => []

/-- The digits of the column of a line. -/
def columnDigits (line : String) : List Char := (withoutEllipses (columnOf line)).filter (· ≠ ' ')

theorem afterFirst_append {front : List Char} (free : ':' ∉ front) (rest : List Char) :
    afterFirst ": ".toList (front ++ ':' :: ' ' :: rest) = rest := by
  induction front with
  | nil =>
    rw [List.nil_append, afterFirst, if_pos ⟨rest, rfl⟩]
    rfl
  | cons c front ih =>
    have different : ':' ≠ c := fun same => free (same ▸ List.mem_cons_self ..)
    have notHere : ¬ ": ".toList <+: c :: (front ++ ':' :: ' ' :: rest) := by
      rintro ⟨tail, same⟩
      exact different (List.cons.inj same).1
    rw [List.cons_append, afterFirst, if_neg notHere]
    exact ih fun later => free (List.mem_cons_of_mem c later)

theorem withoutEllipses_append {front : List Char} (free : '.' ∉ front) (back : List Char) :
    withoutEllipses (front ++ back) = front ++ withoutEllipses back := by
  induction front with
  | nil => rfl
  | cons c front ih =>
    have different : c ≠ '.' := fun same => free (same ▸ List.mem_cons_self ..)
    have later := ih fun member => free (List.mem_cons_of_mem c member)
    rw [List.cons_append, withoutEllipses, later]
    · rfl
    · exact fun rest same => absurd same different

/-- Blanks behind a text that does not end in one are found again. -/
theorem rdropWhile_rightpad {text : List Char} (last : text.getLast? ≠ some ' ') (width : Nat) :
    (text.rightpad width ' ').rdropWhile (· = ' ') = text := by
  have blanks : ∀ c ∈ List.replicate (width - text.length) ' ', decide (c = ' ') = true := fun c member =>
    decide_eq_true (List.eq_of_mem_replicate member)
  rw [List.rightpad, List.rdropWhile, List.reverse_append, List.reverse_replicate,
    List.dropWhile_append_of_pos blanks]
  cases reversed : text.reverse with
  | nil => rw [List.reverse_eq_nil_iff.mp reversed]; rfl
  | cons c rest =>
    have isLast : text.getLast? = some c := by rw [← List.head?_reverse, reversed, List.head?_cons]
    have notBlank : c ≠ ' ' := by
      rintro rfl
      exact last isLast
    rw [List.dropWhile_cons_of_neg (by simpa using notBlank), ← reversed, List.reverse_reverse]

/-- What stands before the bar of a line: the address and the padded column. -/
def lineFront (base : UInt32) (offset : Nat) (column : String) : List Char :=
  (hexPadded 8 (base.toNat + offset)).toList ++ ':' :: ' ' :: column.toList.rightpad 36 ' '

theorem toList_line (base : UInt32) (offset : Nat) (column text : String) :
    (line base offset column text).toList =
      lineFront base offset column ++ '|' :: ((hexPadded 4 (offset / 2)).toList ++ ": ".toList ++ text.toList) := by
  simp [line, padRight, lineFront, String.toList_append]

theorem bar_notMem_lineFront (base : UInt32) (offset : Nat) {column : String} (noBar : '|' ∉ column.toList) :
    '|' ∉ lineFront base offset column := by
  intro member
  simp only [lineFront, List.rightpad, List.mem_append, List.mem_cons, List.mem_replicate] at member
  rcases member with digit | bar | bar | inColumn | ⟨_, bar⟩
  · exact absurd (isDigit_of_mem_hexPadded digit) (by decide)
  · exact absurd bar (by decide)
  · exact absurd bar (by decide)
  · exact noBar inColumn
  · exact absurd bar (by decide)

/-- The first bar of a line is the one behind the column. -/
theorem takeWhile_line (base : UInt32) (offset : Nat) {column : String} (text : String)
    (noBar : '|' ∉ column.toList) :
    (line base offset column text).toList.takeWhile (· ≠ '|') = lineFront base offset column := by
  have noBarBefore : ∀ c ∈ lineFront base offset column, decide (c ≠ '|') = true := fun c member =>
    decide_eq_true fun bar => bar_notMem_lineFront base offset noBar (bar ▸ member)
  rw [toList_line, List.takeWhile_append_of_pos noBarBefore, List.takeWhile_cons_of_neg (by decide),
    List.append_nil]

theorem afterFirst_lineFront (base : UInt32) (offset : Nat) (column : String) :
    afterFirst ": ".toList (lineFront base offset column) = column.toList.rightpad 36 ' ' :=
  afterFirst_append (fun colon => absurd (isDigit_of_mem_hexPadded colon) (by decide)) _

/-- The column of a line is the one that it was made from, if this has no bar in it and no blank at its end. -/
theorem columnOf_line (base : UInt32) (offset : Nat) {column : String} (text : String)
    (noBar : '|' ∉ column.toList) (last : column.toList.getLast? ≠ some ' ') :
    columnOf (line base offset column text) = column.toList := by
  rw [columnOf, takeWhile_line base offset text noBar, afterFirst_lineFront, rdropWhile_rightpad last]

/-- The bytes of each unit, two by two. -/
theorem flatMap_unitTexts (bytes : List UInt8) : (unitTexts bytes).flatMap String.toList = hexDump bytes := by
  fun_induction unitTexts bytes with
  | case1 => rfl
  | case2 a => simp only [List.flatMap_cons, List.flatMap_nil, toList_hexPadded_byte, hexDump]
  | case3 a b rest ih =>
    simp only [List.flatMap_cons, ih, String.toList_append, toList_hexPadded_byte, hexDump, List.append_assoc]

/-- A text without blanks that is not empty, so that it can stand among others with blanks between them. -/
def IsWord (text : String) : Prop := text.toList ≠ [] ∧ ' ' ∉ text.toList

theorem isDigit_of_mem_unitTexts {bytes : List UInt8} {text : String} {c : Char} (member : text ∈ unitTexts bytes)
    (inText : c ∈ text.toList) : IsDigit c := by
  have inDump : c ∈ (unitTexts bytes).flatMap String.toList := List.mem_flatMap.mpr ⟨text, member, inText⟩
  rw [flatMap_unitTexts] at inDump
  exact isDigit_of_mem_hexDump inDump

theorem isWord_of_mem_unitTexts {bytes : List UInt8} {text : String} (member : text ∈ unitTexts bytes) :
    IsWord text := by
  refine ⟨?_, fun blank => absurd (isDigit_of_mem_unitTexts member blank) (by decide)⟩
  fun_induction unitTexts bytes with
  | case1 => cases member
  | case2 a =>
    rw [List.mem_singleton.mp member, toList_hexPadded_byte]
    exact List.cons_ne_nil _ _
  | case3 a b rest ih =>
    rcases List.mem_cons.mp member with rfl | later
    · rw [String.toList_append, toList_hexPadded_byte]
      exact List.cons_ne_nil _ _
    · exact ih later

section Words

variable {texts : List String}

theorem mem_words {c : Char} (member : c ∈ (" ".intercalate texts).toList) :
    c = ' ' ∨ ∃ text ∈ texts, c ∈ text.toList := by
  induction texts with
  | nil => cases member
  | cons text texts ih =>
    by_cases none : texts = []
    · rw [none, String.intercalate_singleton] at member
      exact Or.inr ⟨text, List.mem_cons_self .., member⟩
    · rw [String.intercalate_cons_of_ne_nil none, String.toList_append, String.toList_append, List.mem_append,
        List.mem_append] at member
      rcases member with (first | blank) | later
      · exact Or.inr ⟨text, List.mem_cons_self .., first⟩
      · exact Or.inl (List.mem_singleton.mp blank)
      · exact (ih later).imp_right fun ⟨other, inTexts, found⟩ => ⟨other, List.mem_cons_of_mem text inTexts, found⟩

theorem filter_words (words : ∀ text ∈ texts, IsWord text) :
    (" ".intercalate texts).toList.filter (· ≠ ' ') = texts.flatMap String.toList := by
  induction texts with
  | nil => rfl
  | cons text texts ih =>
    obtain ⟨⟨_, noBlank⟩, later⟩ := List.forall_mem_cons.mp words
    have kept : text.toList.filter (· ≠ ' ') = text.toList :=
      List.filter_eq_self.mpr fun c member => decide_eq_true fun blank => noBlank (blank ▸ member)
    by_cases none : texts = []
    · rw [none, String.intercalate_singleton, kept, List.flatMap_cons, List.flatMap_nil, List.append_nil]
    · have blank : " ".toList.filter (· ≠ ' ') = [] := by decide
      rw [String.intercalate_cons_of_ne_nil none, String.toList_append, String.toList_append, List.filter_append,
        List.filter_append, kept, blank, ih later, List.flatMap_cons, List.append_nil]

theorem getLast?_words (words : ∀ text ∈ texts, IsWord text) :
    (" ".intercalate texts).toList.getLast? ≠ some ' ' := by
  rcases List.eq_nil_or_concat texts with rfl | ⟨front, last, rfl⟩
  · exact fun empty => by cases empty
  · obtain ⟨nonempty, noBlank⟩ := words last (by simp)
    have lastOf : (" ".intercalate (front ++ [last])).toList.getLast? = last.toList.getLast? := by
      by_cases none : front = []
      · rw [none, List.nil_append, String.intercalate_singleton]
      · rw [String.intercalate_append_of_ne_nil none (List.cons_ne_nil _ _), String.intercalate_singleton,
          String.toList_append, List.getLast?_append_of_ne_nil _ nonempty]
    rw [List.concat_eq_append, lastOf]
    exact fun blank => noBlank (List.mem_of_getLast? blank)

end Words

/-- The column that shows the bytes: seven units, and an ellipsis if there are more. -/
def columnText (bytes : List UInt8) : String :=
  " ".intercalate (unitTexts (bytes.take 14) ++ if 14 < bytes.length then ["..."] else [])

theorem hexColumn_eq (code : List UInt8) (start length : Nat) :
    hexColumn code start length = columnText ((code.drop start).take length) := by
  have units : columnUnits * 2 = 14 := rfl
  by_cases long : 14 < ((code.drop start).take length).length
  · simp only [hexColumn, columnText, units, if_pos long]
  · simp only [hexColumn, columnText, units, if_neg long, List.append_nil]

theorem isWord_of_mem_column {bytes : List UInt8} {text : String}
    (member : text ∈ unitTexts (bytes.take 14) ++ if 14 < bytes.length then ["..."] else []) :
    IsWord text ∧ ∀ c ∈ text.toList, IsDigit c ∨ c = '.' := by
  rcases List.mem_append.mp member with unit | ellipsis
  · exact ⟨isWord_of_mem_unitTexts unit, fun c inText => Or.inl (isDigit_of_mem_unitTexts unit inText)⟩
  · split at ellipsis
    · rw [List.mem_singleton.mp ellipsis]
      exact ⟨⟨by decide, by decide⟩, by simp⟩
    · cases ellipsis

theorem bar_notMem_columnText (bytes : List UInt8) : '|' ∉ (columnText bytes).toList := by
  intro bar
  rcases mem_words bar with blank | ⟨text, member, inText⟩
  · exact absurd blank (by decide)
  · rcases (isWord_of_mem_column member).2 '|' inText with digit | dot
    · exact absurd digit (by decide)
    · exact absurd dot (by decide)

/-- A column that shows bytes is found again in the line. -/
theorem columnOf_columnText (base : UInt32) (offset : Nat) (bytes : List UInt8) (text : String) :
    columnOf (line base offset (columnText bytes) text) = (columnText bytes).toList :=
  columnOf_line base offset text (bar_notMem_columnText bytes)
    (getLast?_words fun _ member => (isWord_of_mem_column member).1)

/-- Up to seven units are shown as they are. -/
theorem columnText_short {bytes : List UInt8} (short : bytes.length ≤ 14) :
    columnText bytes = " ".intercalate (unitTexts bytes) := by
  rw [columnText, if_neg (Nat.not_lt.mpr short), List.append_nil, List.take_of_length_le short]

/-- Of more units the first seven are shown. -/
theorem columnText_long {bytes : List UInt8} (long : 14 < bytes.length) :
    columnText bytes = columnText (bytes.take 14) ++ " ..." := by
  have some : unitTexts (bytes.take 14) ≠ [] := by
    match bytes, long with
    | a :: b :: rest, _ => exact List.cons_ne_nil _ _
  rw [columnText_short (List.length_take_le 14 bytes), columnText, if_pos long,
    String.intercalate_append_of_ne_nil some (List.cons_ne_nil _ _), String.intercalate_singleton,
    String.append_assoc]
  rfl

theorem dot_notMem_short {bytes : List UInt8} (short : bytes.length ≤ 14) : '.' ∉ (columnText bytes).toList := by
  rw [columnText_short short]
  intro dot
  rcases mem_words dot with blank | ⟨text, member, inText⟩
  · exact absurd blank (by decide)
  · exact absurd (isDigit_of_mem_unitTexts member inText) (by decide)

/-- The digits of a column are those of the bytes in the units that it shows. -/
theorem digits_columnText (bytes : List UInt8) :
    (withoutEllipses (columnText bytes).toList).filter (· ≠ ' ') = hexDump (bytes.take 14) := by
  have shown : (columnText (bytes.take 14)).toList.filter (· ≠ ' ') = hexDump (bytes.take 14) := by
    rw [columnText_short (List.length_take_le 14 bytes), filter_words fun _ => isWord_of_mem_unitTexts,
      flatMap_unitTexts]
  have noDot := dot_notMem_short (List.length_take_le 14 bytes)
  by_cases long : 14 < bytes.length
  · have ellipsis : (withoutEllipses " ...".toList).filter (· ≠ ' ') = [] := by decide
    rw [columnText_long long, String.toList_append, withoutEllipses_append noDot, List.filter_append, shown,
      ellipsis, List.append_nil]
  · have all := withoutEllipses_append noDot []
    rw [List.append_nil, withoutEllipses, List.append_nil] at all
    rw [List.take_of_length_le (Nat.not_lt.mp long)] at all shown ⊢
    rw [all, shown]

theorem ellipsis_suffix_columnText (bytes : List UInt8) :
    "...".toList <:+ (columnText bytes).toList ↔ 14 < bytes.length := by
  constructor
  · intro suffix
    refine Nat.lt_of_not_le fun short => dot_notMem_short short ?_
    exact suffix.subset (by decide)
  · intro long
    rw [columnText_long long, String.toList_append]
    exact ⟨(columnText (bytes.take 14)).toList ++ [' '], by simp⟩

end Listing

end Dalvik
