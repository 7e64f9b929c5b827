import Dalvik.Listing
import Dalvik.Proofs.ItemOrder

namespace Dalvik

namespace Listing

variable {code : List UInt8} {base : UInt32} {options : Options}

/-- The lines of one item: that of an instruction, with an empty one behind it if control ends there and the
blocks are separated, or that of a payload block if these are shown. -/
def itemLines (code : List UInt8) (base : UInt32) (options : Options) : Item → List String
  | .instruction i => instructionLine code base i options.registers ::
    if options.separateBlocks = true ∧ i.opcode.traits.canContinue = false then [""] else []
  | .payload span => if options.showPayloads = true then [payloadLine code base span] else []

theorem instructionLines_eq (i : Instruction) :
    instructionLines code base options i = itemLines code base options (.instruction i) := by
  simp only [instructionLines, itemLines, Bool.and_eq_true, Bool.not_eq_true']

theorem payloadLines_cons (span : PayloadSpan) (spans : List PayloadSpan) :
    payloadLines code base options (span :: spans) =
      itemLines code base options (.payload span) ++ payloadLines code base options spans := by
  unfold payloadLines itemLines
  split <;> rfl

/-- A block that starts before the next instruction comes first. -/
theorem merge_payload {span : PayloadSpan} {spans : List PayloadSpan} {instructions : List Instruction}
    (before : ∀ i ∈ instructions, span.start < i.offset) :
    merge code base options instructions (span :: spans) =
      itemLines code base options (.payload span) ++ merge code base options instructions spans := by
  cases instructions with
  | nil =>
    simp only [merge]
    exact payloadLines_cons span spans
  | cons i rest =>
    have first : decide (span.start < i.offset) = true := decide_eq_true (before i (List.mem_cons_self ..))
    simp only [merge, List.takeWhile_cons, List.dropWhile_cons, first, if_true, payloadLines_cons,
      List.append_assoc]

/-- An instruction that starts before the next block comes first. -/
theorem merge_instruction {i : Instruction} {instructions : List Instruction} {spans : List PayloadSpan}
    (before : ∀ span ∈ spans, i.offset < span.start) :
    merge code base options (i :: instructions) spans =
      itemLines code base options (.instruction i) ++ merge code base options instructions spans := by
  have none : spans.takeWhile (fun span => span.start < i.offset) = [] ∧
      spans.dropWhile (fun span => span.start < i.offset) = spans := by
    cases spans with
    | nil => exact ⟨rfl, rfl⟩
    | cons span spans =>
      have later := before span (List.mem_cons_self ..)
      have notFirst : decide (span.start < i.offset) = false := decide_eq_false (by omega)
      simp [notFirst]
  obtain ⟨noneTaken, noneDropped⟩ := none
  rw [merge, noneTaken, noneDropped, instructionLines_eq]
  have noLines : payloadLines code base options [] = [] := by
    unfold payloadLines
    split <;> rfl
  rw [noLines, List.nil_append]

/-- The lines of items that stand in order of their starts are merged back into this order. -/
theorem merge_items {items : List Item} (ascending : items.Pairwise fun item later => item.start < later.start) :
    merge code base options (items.filterMap Item.instruction?) (items.filterMap Item.payload?) =
      items.flatMap (itemLines code base options) := by
  induction items with
  | nil =>
    simp only [List.filterMap_nil, List.flatMap_nil, merge, payloadLines]
    split <;> rfl
  | cons item items ih =>
    obtain ⟨first, later⟩ := List.pairwise_cons.mp ascending
    rw [List.flatMap_cons, ← ih later]
    cases item with
    | instruction i =>
      have before : ∀ span ∈ items.filterMap Item.payload?, i.offset < span.start := fun span member =>
        first _ (Item.mem_filterMap_payload?.mp member)
      exact merge_instruction before
    | payload span =>
      have before : ∀ i ∈ items.filterMap Item.instruction?, span.start < i.offset := fun i member =>
        first _ (Item.mem_filterMap_instruction?.mp member)
      exact merge_payload before

end Listing

/-- A listing goes through the instructions and the payload blocks in the order of their starts, each of them
once, and gives the lines of each. This holds for any code whose bytes are shown, for any base and for all
options. -/
theorem listing_eq_flatMap_items {code : List UInt8} {base : UInt32} {pool : ConstantPool} {d : Disassembly}
    (run : (disassemble code base pool).value = .ok d) (shown : List UInt8) (shownBase : UInt32)
    (options : Listing.Options) :
    d.items.Perm (d.instructions.map .instruction ++ d.payloads.map .payload) ∧
      d.items.Pairwise (fun item later => item.start < later.start) ∧
      listing shown shownBase d options = d.items.flatMap (Listing.itemLines shown shownBase options) := by
  obtain ⟨items, walk, rfl⟩ := disassemble_ok_iff.mp run
  refine ⟨Disassembly.items_perm _, ?_, ?_⟩
  · rw [walk.items_ofItems]
    exact walk.starts_ascending
  · rw [walk.items_ofItems, listing, walk.payloads_ofItems]
    exact Listing.merge_items walk.starts_ascending

/-- Blocks before, between and behind the instructions. -/
theorem listing_switches :
    let block : List UInt8 := [0, 1, 0, 0, 0, 0, 0, 0]
    let code : List UInt8 := block ++ [0x0e, 0] ++ block ++ block ++ [0, 0] ++ block
    let options : Listing.Options := { separateBlocks := true, showPayloads := true }
    ∃ d, (disassemble code 0 .placeholder).value = .ok d ∧
      listing code 0x100 d options =
        [Listing.payloadLine code 0x100 ⟨0, 8, .packedSwitch⟩,
          Listing.instructionLine code 0x100 ⟨8, .ofByte 0x0e, []⟩ none, "",
          Listing.payloadLine code 0x100 ⟨10, 8, .packedSwitch⟩,
          Listing.payloadLine code 0x100 ⟨18, 8, .packedSwitch⟩,
          Listing.instructionLine code 0x100 ⟨26, .ofByte 0, []⟩ none,
          Listing.payloadLine code 0x100 ⟨28, 8, .packedSwitch⟩] := by
  intro block code options
  have walk : Walk code 0 .placeholder 0
      [.payload ⟨0, 8, .packedSwitch⟩, .instruction ⟨8, .ofByte 0x0e, []⟩, .payload ⟨10, 8, .packedSwitch⟩,
        .payload ⟨18, 8, .packedSwitch⟩, .instruction ⟨26, .ofByte 0, []⟩, .payload ⟨28, 8, .packedSwitch⟩] 36 := by
    unfold code block
    exact .next rfl (.next rfl (.next rfl (.next rfl (.next rfl (.next rfl .stop)))))
  have run := walk.disassemble_ok
  obtain ⟨_, _, lines⟩ := listing_eq_flatMap_items run code 0x100 options
  rw [walk.items_ofItems] at lines
  exact ⟨_, run, lines⟩

end Dalvik
