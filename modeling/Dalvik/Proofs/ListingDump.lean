import Dalvik.Proofs.HexColumns
import Dalvik.Proofs.ListingMerge

namespace Dalvik

/-- The bytes of the code less those that lie behind the first fourteen of a payload block. -/
def Disassembly.shortened (d : Disassembly) (code : List UInt8) : List UInt8 :=
  (code.zipIdx.filter fun byte => ∀ span ∈ d.payloads,
    ¬ (span.start + 14 ≤ byte.2 ∧ byte.2 < span.start + span.length)).map Prod.fst

theorem Format.size_le (f : Format) : f.size ≤ 10 := by
  cases f <;> decide

/-- The bytes of an item. -/
def Item.bytes (code : List UInt8) (item : Item) : List UInt8 := (code.drop item.start).take item.size

namespace Listing

/-- The line of one item. -/
def itemLine (code : List UInt8) (base : UInt32) (options : Options) : Item → String
  | .instruction i => instructionLine code base i options.registers
  | .payload span => payloadLine code base span

/-- The line of an item shows its address and its bytes. -/
theorem exists_itemLine_eq (code : List UInt8) (base : UInt32) (options : Options) (item : Item) :
    ∃ text, itemLine code base options item = line base item.start (columnText (item.bytes code)) text := by
  cases item with
  | instruction i =>
    rw [itemLine, instructionLine, hexColumn_eq]
    exact ⟨_, rfl⟩
  | payload span =>
    rw [itemLine, payloadLine, hexColumn_eq]
    exact ⟨_, rfl⟩

theorem columnOf_itemLine (code : List UInt8) (base : UInt32) (options : Options) (item : Item) :
    columnOf (itemLine code base options item) = (columnText (item.bytes code)).toList := by
  obtain ⟨text, isLine⟩ := exists_itemLine_eq code base options item
  rw [isLine, columnOf_columnText]

theorem columnDigits_itemLine (code : List UInt8) (base : UInt32) (options : Options) (item : Item) :
    columnDigits (itemLine code base options item) = hexDump ((item.bytes code).take 14) := by
  rw [columnDigits, columnOf_itemLine, digits_columnText]

theorem line_ne_empty (base : UInt32) (offset : Nat) (column text : String) :
    line base offset column text ≠ "" := by
  intro empty
  have bar : '|' ∈ (line base offset column text).toList := by simp [line]
  rw [empty] at bar
  cases bar

theorem itemLine_ne_empty (code : List UInt8) (base : UInt32) (options : Options) (item : Item) :
    itemLine code base options item ≠ "" := by
  cases item <;> exact line_ne_empty _ _ _ _

/-- Among the lines of an item its own is the one that is not empty. -/
theorem filter_itemLines {code : List UInt8} {base : UInt32} {options : Options}
    (shows : options.showPayloads = true)
    (item : Item) : (itemLines code base options item).filter (· ≠ "") = [itemLine code base options item] := by
  have notEmpty := itemLine_ne_empty code base options item
  cases item with
  | instruction i =>
    rw [itemLine] at notEmpty ⊢
    rw [itemLines, List.filter_cons, if_pos (decide_eq_true notEmpty)]
    split <;> rfl
  | payload span =>
    rw [itemLine] at notEmpty ⊢
    rw [itemLines, if_pos shows, List.filter_cons, if_pos (decide_eq_true notEmpty), List.filter_nil]

end Listing

namespace Walk

variable {code : List UInt8} {base : UInt32} {pool : ConstantPool} {pc stop : Nat} {items : List Item}

theorem listing_ofItems (walk : Walk code base pool pc items stop) (shown : List UInt8) (shownBase : UInt32)
    (options : Listing.Options) :
    listing shown shownBase (.ofItems items) options =
      items.flatMap (Listing.itemLines shown shownBase options) := by
  rw [listing, walk.payloads_ofItems]
  exact Listing.merge_items walk.starts_ascending

/-- The bytes from one end of a walk to the other, with their offsets, are those of its items one after the
other. -/
theorem zipIdx_items (walk : Walk code base pool pc items stop) (inside : stop ≤ code.length) :
    ((code.drop pc).take (stop - pc)).zipIdx pc =
      items.flatMap fun item => (item.bytes code).zipIdx item.start := by
  induction walk with
  | stop => simp
  | @next pc stop item items found rest ih =>
    obtain ⟨start, _, _, fits⟩ := itemAt_bounds found
    have bound := rest.le_stop
    have split : (code.drop pc).take (stop - pc) =
        (code.drop pc).take item.size ++ (code.drop (pc + item.size)).take (stop - (pc + item.size)) := by
      rw [← List.drop_drop, ← List.take_add]
      congr 1
      omega
    have length : ((code.drop pc).take item.size).length = item.size := by
      rw [List.length_take, List.length_drop]
      omega
    rw [split, List.zipIdx_append, length, ih inside, List.flatMap_cons, Item.bytes, start]

/-- Inside an item the bytes left out are those behind the first fourteen, of which an instruction has none. -/
theorem filter_item (walk : Walk code base pool pc items stop) {item : Item} (member : item ∈ items) :
    ((item.bytes code).zipIdx item.start).filter (fun byte => ∀ span ∈ items.filterMap Item.payload?,
      ¬ (span.start + 14 ≤ byte.2 ∧ byte.2 < span.start + span.length)) =
      ((item.bytes code).take 14).zipIdx item.start := by
  have size : (item.bytes code).length ≤ item.size := List.length_take_le _ _
  have length := List.length_take (i := 14) (l := item.bytes code)
  have parts := congrArg (List.zipIdx · item.start) (List.take_append_drop 14 (item.bytes code))
  simp only [List.zipIdx_append] at parts
  rw [← parts, List.filter_append, List.filter_eq_self.mpr, List.filter_eq_nil_iff.mpr, List.append_nil]
  · intro byte behind
    have lower := List.le_snd_of_mem_zipIdx behind
    have upper := List.snd_lt_add_of_mem_zipIdx behind
    rw [List.length_drop] at upper
    cases item with
    | instruction i =>
      have short : i.size ≤ 10 := Format.size_le _
      simp only [Item.size] at size
      omega
    | payload span =>
      have isSpan : span ∈ items.filterMap Item.payload? := Item.mem_filterMap_payload?.mpr member
      simp only [Item.start, Item.size] at lower upper size length
      rw [decide_eq_true_eq]
      exact fun kept => kept span isSpan (by omega)
  · intro byte front
    have lower := List.le_snd_of_mem_zipIdx front
    have upper := List.snd_lt_add_of_mem_zipIdx front
    refine decide_eq_true fun span isSpan hidden => ?_
    obtain ⟨behind, before⟩ := hidden
    have other := Item.mem_filterMap_payload?.mp isSpan
    obtain rfl := walk.eq_of_overlap member other lower (by omega) (show span.start ≤ byte.2 by omega) before
    simp only [Item.start] at upper
    omega

/-- The bytes shown are those of the items in front of a place fourteen bytes into each. -/
theorem shortened_ofItems (walk : Walk code base pool 0 items code.length) :
    (Disassembly.ofItems items).shortened code = items.flatMap fun item => (item.bytes code).take 14 := by
  have whole := walk.zipIdx_items (Nat.le_refl _)
  rw [List.drop_zero, Nat.sub_zero, List.take_length] at whole
  rw [Disassembly.shortened, walk.payloads_ofItems, whole, List.filter_flatMap, List.map_flatMap]
  refine List.flatMap_congr fun item member => ?_
  rw [walk.filter_item member, List.zipIdx_map_fst]

end Walk

/-- With payload blocks shown, the hexadecimal columns of a listing are a dump of the code, in which blocks of
more than fourteen bytes are cut to these. The column of an instruction is never elided, and that of a block
exactly if it is longer. -/
theorem listing_dumps_code {code : List UInt8} {base : UInt32} {pool : ConstantPool} {d : Disassembly}
    (run : (disassemble code base pool).value = .ok d) (shownBase : UInt32) (options : Listing.Options)
    (shows : options.showPayloads = true) :
    let lines := (listing code shownBase d options).filter (· ≠ "")
    lines = d.items.map (Listing.itemLine code shownBase options) ∧
      lines.flatMap Listing.columnDigits = hexDump (d.shortened code) ∧
      (∀ i ∈ d.instructions,
        ¬ "...".toList <:+: Listing.columnOf (Listing.instructionLine code shownBase i options.registers)) ∧
      ∀ span ∈ d.payloads,
        "...".toList <:+ Listing.columnOf (Listing.payloadLine code shownBase span) ↔ 14 < span.length := by
  intro lines
  obtain ⟨items, walk, rfl⟩ := disassemble_ok_iff.mp run
  have ofItems : lines = items.map (Listing.itemLine code shownBase options) := by
    simp only [lines, walk.listing_ofItems, List.filter_flatMap, Listing.filter_itemLines shows]
    exact List.map_eq_flatMap.symm
  refine ⟨by rw [ofItems, walk.items_ofItems], ?_, fun i member elided => ?_, fun span member => ?_⟩
  · rw [ofItems, List.flatMap_map, walk.shortened_ofItems, hexDump, List.flatMap_assoc]
    refine List.flatMap_congr fun item _ => ?_
    exact Listing.columnDigits_itemLine code shownBase options item
  · have column := Listing.columnOf_itemLine code shownBase options (.instruction i)
    rw [Listing.itemLine] at column
    have short : (Item.bytes code (.instruction i)).length ≤ 14 :=
      (List.length_take_le _ _).trans ((Format.size_le _).trans (by decide))
    rw [column] at elided
    exact Listing.dot_notMem_short short (elided.subset (by decide))
  · rw [walk.payloads_ofItems] at member
    have inside := (walk.item_bounds (Item.mem_filterMap_payload?.mp member)).2.1
    have length : (Item.bytes code (.payload span)).length = span.length := by
      simp only [Item.start, Item.size] at inside
      simp only [Item.bytes, Item.start, Item.size, List.length_take, List.length_drop]
      omega
    have column := Listing.columnOf_itemLine code shownBase options (.payload span)
    rw [Listing.itemLine] at column
    rw [column, Listing.ellipsis_suffix_columnText, length]

/-- A `return-void` and a block of sixteen bytes behind it. -/
theorem listing_dumps_code_array :
    let code : List UInt8 := [0x0e, 0, 0, 3, 1, 0, 8, 0, 0, 0, 1, 2, 3, 4, 5, 6, 7, 8]
    let options : Listing.Options := { separateBlocks := true, showPayloads := true }
    ∃ d, (disassemble code 0 .placeholder).value = .ok d ∧
      ((listing code 0x100 d options).filter (· ≠ "")).flatMap Listing.columnDigits =
        "0e000003010008000000010203040506".toList ∧
      "...".toList <:+ Listing.columnOf (Listing.payloadLine code 0x100 ⟨2, 16, .arrayData⟩) := by
  intro code options
  have walk : Walk code 0 .placeholder 0 [.instruction ⟨0, .ofByte 0x0e, []⟩, .payload ⟨2, 16, .arrayData⟩] 18 :=
    .next rfl (.next rfl .stop)
  have run := walk.disassemble_ok
  obtain ⟨_, dump, _, elided⟩ := listing_dumps_code run 0x100 options rfl
  refine ⟨_, run, dump.trans ?_, (elided ⟨2, 16, .arrayData⟩ ?_).mpr (by decide)⟩
  · rw [walk.shortened_ofItems]
    decide
  · rw [walk.payloads_ofItems]
    decide

end Dalvik
