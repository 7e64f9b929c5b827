import Mathlib.Data.Nat.Digits.Lemmas
import Dalvik.Proofs.ListingDump

namespace Dalvik

theorem length_hexPadded {width n : Nat} (positive : 0 < width) (small : n < 16 ^ width) :
    (hexPadded width n).toList.length = width := by
  have digits := (Nat.length_toDigits_le_iff (by decide) positive).mpr small
  rw [hexPadded, String.toList_ofList, List.length_leftpad, Nat.max_eq_left digits]

namespace Listing

/-- Where the first bar of a line stands. -/
def barIndex? (line : String) : Option Nat := line.toList.idxOf? '|'

/-- How many characters the hexadecimal column of a line takes up, with the blanks at its end. -/
def columnWidth (line : String) : Nat := (afterFirst ": ".toList (line.toList.takeWhile (· ≠ '|'))).length

/-- The column takes up thirty-six characters behind eight digits, a colon and a blank, and a bar closes it. -/
def IsAligned (line : String) : Prop := columnWidth line = 36 ∧ barIndex? line = some 46

instance (line : String) : Decidable (IsAligned line) := inferInstanceAs (Decidable (_ ∧ _))

/-- Two digits a byte, and a blank before each unit but the first. -/
theorem length_units (bytes : List UInt8) :
    (" ".intercalate (unitTexts bytes)).toList.length = 2 * bytes.length + (bytes.length - 1) / 2 := by
  have digits (b : UInt8) : (hexPadded 2 b.toNat).toList.length = 2 := length_hexPadded (by decide) b.toNat_lt
  fun_induction unitTexts bytes with
  | case1 => rfl
  | case2 a => simp [digits]
  | case3 a b rest ih =>
    have unit : (hexPadded 2 a.toNat ++ hexPadded 2 b.toNat).toList.length = 4 := by
      rw [String.toList_append, List.length_append, digits, digits]
    -- A blank follows the unit only if there is another one behind it.
    cases rest with
    | nil => simp [unitTexts, digits]
    | cons c rest =>
      have more : unitTexts (c :: rest) ≠ [] := by cases rest <;> exact List.cons_ne_nil _ _
      have blank : " ".toList.length = 1 := rfl
      rw [String.intercalate_cons_of_ne_nil more, String.toList_append, String.toList_append, List.length_append,
        List.length_append, unit, blank, ih]
      simp only [List.length_cons]
      omega

/-- Seven units and an ellipsis are two characters too wide for the column. -/
theorem length_columnText_long {bytes : List UInt8} (long : 14 < bytes.length) :
    (columnText bytes).toList.length = 38 := by
  have shown : (bytes.take 14).length = 14 := List.length_take_of_le (Nat.le_of_lt long)
  rw [columnText_long long, columnText_short (Nat.le_of_eq shown), String.toList_append, List.length_append,
    length_units, shown]
  rfl

theorem length_columnText_short {bytes : List UInt8} (short : bytes.length ≤ 14) :
    (columnText bytes).toList.length ≤ 36 := by
  rw [columnText_short short, length_units]
  omega

/-- The width of a column that shows some number of bytes. -/
theorem length_padded_columnText (bytes : List UInt8) :
    ((columnText bytes).toList.rightpad 36 ' ').length = if 14 < bytes.length then 38 else 36 := by
  rw [List.length_rightpad]
  split
  · rename_i long
    rw [length_columnText_long long]
    rfl
  · rename_i short
    exact Nat.max_eq_left (length_columnText_short (Nat.not_lt.mp short))

theorem barIndex?_line (base : UInt32) (offset : Nat) {column : String} (text : String)
    (noBar : '|' ∉ column.toList) :
    barIndex? (line base offset column text) = some (lineFront base offset column).length := by
  have noneBefore : (lineFront base offset column).findIdx? (· == '|') = none :=
    List.findIdx?_eq_none_iff.mpr fun c member =>
      beq_false_of_ne fun bar => bar_notMem_lineFront base offset noBar (bar ▸ member)
  rw [barIndex?, toList_line, List.idxOf?, List.findIdx?_append, noneBefore, List.findIdx?_cons,
    if_pos (beq_self_eq_true '|')]
  simp

theorem columnWidth_line (base : UInt32) (offset : Nat) {column : String} (text : String)
    (noBar : '|' ∉ column.toList) :
    columnWidth (line base offset column text) = (column.toList.rightpad 36 ' ').length := by
  rw [columnWidth, takeWhile_line base offset text noBar, afterFirst_lineFront]

theorem length_lineFront {base : UInt32} {offset : Nat} (fits : base.toNat + offset < 2 ^ 32) (column : String) :
    (lineFront base offset column).length = 10 + (column.toList.rightpad 36 ' ').length := by
  rw [lineFront, List.length_append, length_hexPadded (by decide) fits, List.length_cons, List.length_cons]
  omega

/-- The place of the bar in the line of an item hangs on the size of the item alone. -/
theorem columnWidth_itemLine {code : List UInt8} {base : UInt32} {item : Item} (options : Options)
    (inside : item.start + item.size ≤ code.length) (fits : base.toNat + item.start < 2 ^ 32) :
    columnWidth (itemLine code base options item) = (if 14 < item.size then 38 else 36) ∧
      barIndex? (itemLine code base options item) = some (if 14 < item.size then 48 else 46) := by
  have length : (item.bytes code).length = item.size := by
    rw [Item.bytes, List.length_take, List.length_drop]
    omega
  obtain ⟨text, isLine⟩ := exists_itemLine_eq code base options item
  have noBar := bar_notMem_columnText (item.bytes code)
  rw [isLine, columnWidth_line _ _ _ noBar, barIndex?_line _ _ _ noBar, length_lineFront fits,
    length_padded_columnText, length]
  split <;> exact ⟨rfl, rfl⟩

/-- Whether an item has a line in the listing. -/
def IsShown (options : Options) : Item → Prop
  | .instruction _ => True
  | .payload _ => options.showPayloads = true

/-- The lines of an item are its own, if it is shown, and perhaps an empty one. -/
theorem mem_itemLines_iff {code : List UInt8} {base : UInt32} {options : Options} {item : Item} {line : String} :
    line ∈ itemLines code base options item ∧ line ≠ "" ↔
      IsShown options item ∧ line = itemLine code base options item := by
  have notEmpty := itemLine_ne_empty code base options item
  cases item with
  | instruction i =>
    constructor
    · rintro ⟨member, other⟩
      rcases List.mem_cons.mp member with own | separator
      · exact ⟨trivial, own⟩
      · split at separator
        · exact absurd (List.mem_singleton.mp separator) other
        · cases separator
    · rintro ⟨_, rfl⟩
      exact ⟨List.mem_cons_self .., notEmpty⟩
  | payload span =>
    simp only [itemLines, IsShown]
    constructor
    · rintro ⟨member, _⟩
      split at member
      · rename_i shows
        exact ⟨shows, List.mem_singleton.mp member⟩
      · cases member
    · rintro ⟨shows, rfl⟩
      rw [if_pos shows]
      exact ⟨List.mem_singleton_self _, notEmpty⟩

end Listing

theorem Instruction.size_le (i : Instruction) : i.size ≤ 14 := (Format.size_le _).trans (by decide)

theorem Walk.width_of_mem {code : List UInt8} {base : UInt32} {pool : ConstantPool} {items : List Item}
    (walk : Walk code base pool 0 items code.length) {shownBase : UInt32}
    (fits : shownBase.toNat + code.length ≤ 2 ^ 32) (options : Listing.Options) {item : Item}
    (member : item ∈ items) :
    Listing.columnWidth (Listing.itemLine code shownBase options item) = (if 14 < item.size then 38 else 36) ∧
      Listing.barIndex? (Listing.itemLine code shownBase options item) =
        some (if 14 < item.size then 48 else 46) := by
  obtain ⟨_, inside, found⟩ := walk.item_bounds member
  obtain ⟨_, positive, _, _⟩ := itemAt_bounds found
  exact Listing.columnWidth_itemLine options inside (by omega)

theorem Walk.isAligned_iff {code : List UInt8} {base : UInt32} {pool : ConstantPool} {items : List Item}
    (walk : Walk code base pool 0 items code.length) {shownBase : UInt32}
    (fits : shownBase.toNat + code.length ≤ 2 ^ 32) (options : Listing.Options) {item : Item}
    (member : item ∈ items) :
    Listing.IsAligned (Listing.itemLine code shownBase options item) ↔ item.size ≤ 14 := by
  obtain ⟨width, bar⟩ := walk.width_of_mem fits options member
  rw [Listing.IsAligned, width, bar]
  by_cases long : 14 < item.size
  · simp [long]
  · simp [long, Nat.not_lt.mp long]

/-- The columns of a listing are aligned exactly if no payload block of more than seven units is shown. The lines
of instructions always are, and so are those of blocks up to that size; in the line of a longer block the column
with its ellipsis takes up thirty-eight characters, and the bar stands two places to the right. -/
theorem listing_aligned_iff {code : List UInt8} {base : UInt32} {pool : ConstantPool} {d : Disassembly}
    (run : (disassemble code base pool).value = .ok d) {shownBase : UInt32}
    (fits : shownBase.toNat + code.length ≤ 2 ^ 32) (options : Listing.Options) :
    ((∀ line ∈ listing code shownBase d options, line ≠ "" → Listing.IsAligned line) ↔
      (options.showPayloads = true → ∀ span ∈ d.payloads, span.length ≤ 14)) ∧
    (∀ i ∈ d.instructions, Listing.IsAligned (Listing.instructionLine code shownBase i options.registers)) ∧
    ∀ span ∈ d.payloads,
      Listing.columnWidth (Listing.payloadLine code shownBase span) = (if 14 < span.length then 38 else 36) ∧
      Listing.barIndex? (Listing.payloadLine code shownBase span) = some (if 14 < span.length then 48 else 46) := by
  obtain ⟨items, walk, rfl⟩ := disassemble_ok_iff.mp run
  rw [walk.listing_ofItems, walk.payloads_ofItems]
  refine ⟨⟨fun aligned shows span member => ?_, fun short line member notEmpty => ?_⟩, fun i member => ?_,
    fun span member => ?_⟩
  · have isItem := Item.mem_filterMap_payload?.mp member
    have shown : Listing.IsShown options (.payload span) := shows
    obtain ⟨inLines, notEmpty⟩ := Listing.mem_itemLines_iff.mpr ⟨shown, rfl⟩
    exact (walk.isAligned_iff fits options isItem).mp
      (aligned _ (List.mem_flatMap.mpr ⟨_, isItem, inLines⟩) notEmpty)
  · obtain ⟨item, isItem, inLines⟩ := List.mem_flatMap.mp member
    obtain ⟨shown, rfl⟩ := Listing.mem_itemLines_iff.mp ⟨inLines, notEmpty⟩
    refine (walk.isAligned_iff fits options isItem).mpr ?_
    cases item with
    | instruction i => exact i.size_le
    | payload span => exact short shown span (Item.mem_filterMap_payload?.mpr isItem)
  · have isItem := Item.mem_filterMap_instruction?.mp member
    exact (walk.isAligned_iff fits options isItem).mpr i.size_le
  · have width := walk.width_of_mem fits options (Item.mem_filterMap_payload?.mp member)
    rwa [Listing.itemLine, Item.size] at width

/-- A `nop` and a block of seven units that ends with the last address. -/
theorem listing_aligned_iff_seven_units :
    let code : List UInt8 := [0, 0, 0, 3, 2, 0, 3, 0, 0, 0, 1, 0, 2, 0, 3, 0]
    ∃ d, (disassemble code 0 .placeholder).value = .ok d ∧ (0xfffffff0 : UInt32).toNat + code.length ≤ 2 ^ 32 ∧
      ∀ line ∈ listing code 0xfffffff0 d { showPayloads := true }, line ≠ "" → Listing.IsAligned line := by
  intro code
  have walk : Walk code 0 .placeholder 0 [.instruction ⟨0, .ofByte 0, []⟩, .payload ⟨2, 14, .arrayData⟩] 16 :=
    .next rfl (.next rfl .stop)
  have fits : (0xfffffff0 : UInt32).toNat + code.length ≤ 2 ^ 32 := by decide
  refine ⟨_, walk.disassemble_ok, fits, (listing_aligned_iff walk.disassemble_ok fits _).1.mpr fun _ => ?_⟩
  rw [walk.payloads_ofItems]
  decide

/-- A block of eight units, whose bar stands two places to the right. -/
theorem listing_not_aligned_eight_units :
    let code : List UInt8 := [0, 3, 1, 0, 8, 0, 0, 0, 1, 2, 3, 4, 5, 6, 7, 8]
    ∃ d, (disassemble code 0 .placeholder).value = .ok d ∧ (0 : UInt32).toNat + code.length ≤ 2 ^ 32 ∧
      listing code 0 d { showPayloads := true } =
        ["00000000: 0003 0100 0800 0000 0102 0304 0506 ...|0000: array-payload (8 units)"] ∧
      ¬ ∀ line ∈ listing code 0 d { showPayloads := true }, line ≠ "" → Listing.IsAligned line := by
  intro code
  have walk : Walk code 0 .placeholder 0 [.payload ⟨0, 16, .arrayData⟩] 16 := .next rfl .stop
  have fits : (0 : UInt32).toNat + code.length ≤ 2 ^ 32 := by decide
  have lines : listing code 0 (.ofItems [.payload ⟨0, 16, .arrayData⟩]) { showPayloads := true } =
      ["00000000: 0003 0100 0800 0000 0102 0304 0506 ...|0000: array-payload (8 units)"] := by
    decide +kernel
  refine ⟨_, walk.disassemble_ok, fits, lines, fun aligned => ?_⟩
  have misplaced := aligned _ (lines ▸ List.mem_singleton_self _) (by decide)
  exact absurd misplaced (by decide)

end Dalvik
