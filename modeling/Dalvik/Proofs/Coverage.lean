import Dalvik.Proofs.IntervalInsertion
import Dalvik.Proofs.ItemOrder

namespace Dalvik

/-- The offset of the first byte, and that of the first byte after the item. -/
def Item.range (item : Item) : Nat × Nat := (item.start, item.start + item.size)

namespace Disassembly

/-- Where the instructions and the payload blocks start and end. -/
def ranges (d : Disassembly) : List (Nat × Nat) :=
  d.instructions.map (fun i => (i.offset, i.offset + i.size)) ++
    d.payloads.map fun span => (span.start, span.start + span.length)

theorem ranges_eq (d : Disassembly) : d.ranges = d.parts.map Item.range := by
  simp only [ranges, parts, List.map_append, List.map_map]
  rfl

end Disassembly

namespace Walk

variable {code : List UInt8} {base : UInt32} {pool : ConstantPool} {pc stop : Nat} {items : List Item}

/-- The instructions and the payload blocks together are the items passed. -/
theorem ranges_perm (walk : Walk code base pool pc items stop) :
    (Disassembly.ofItems items).ranges.Perm (items.map Item.range) := by
  rw [Disassembly.ranges_eq]
  exact walk.parts_ofItems_perm.map Item.range

/-- The ranges of the items passed cover each offset between the ends of the walk once, and no other. -/
theorem count_range (walk : Walk code base pool pc items stop) (offset : Nat) :
    (items.map Item.range).countP (fun range => range.1 ≤ offset ∧ offset < range.2) =
      if pc ≤ offset ∧ offset < stop then 1 else 0 := by
  induction walk with
  | stop =>
    rw [if_neg (by omega)]
    rfl
  | @next pc stop item items found rest ih =>
    obtain ⟨start, positive, _, _⟩ := itemAt_bounds found
    have bound := rest.le_stop
    rw [List.map_cons, List.countP_cons, ih]
    simp only [Item.range, start, decide_eq_true_eq]
    split <;> split <;> split <;> omega

/-- A walk that starts on a code unit passes items that start and end on code units. -/
theorem range_even (walk : Walk code base pool pc items stop) (even : pc % 2 = 0) :
    ∀ range ∈ items.map Item.range, range.1 % 2 = 0 ∧ range.2 % 2 = 0 := by
  induction walk with
  | stop => exact List.forall_mem_nil _
  | next found _ ih =>
    obtain ⟨start, _, sizeEven, _⟩ := itemAt_bounds found
    refine List.forall_mem_cons.mpr ⟨?_, ih (by omega)⟩
    simp only [Item.range, start]
    omega

theorem payloadMap_separated (walk : Walk code base pool pc items stop) :
    IntervalMap.Separated (Disassembly.ofItems items).payloadMap.descending := by
  refine IntervalMap.foldl_insert_separated PayloadSpan.interval (fun span member => ?_) trivial
  obtain ⟨_, _, found⟩ := walk.item_bounds (Item.mem_filterMap_payload?.mp member)
  obtain ⟨_, positive, _, _⟩ := itemAt_bounds found
  simp only [Item.size] at positive
  simp only [PayloadSpan.interval]
  omega

/-- A payload block is found at each of its bytes. -/
theorem payloadKindAt?_eq_some_iff (walk : Walk code base pool pc items stop) {offset : Nat} {kind : PayloadKind} :
    (Disassembly.ofItems items).payloadKindAt? offset = some kind ↔
      ∃ span ∈ (Disassembly.ofItems items).payloads,
        span.start ≤ offset ∧ offset < span.start + span.length ∧ span.kind = kind := by
  rw [Disassembly.payloadKindAt?, Option.map_eq_some_iff, walk.payloads_ofItems]
  simp only [IntervalMap.get?_eq_some_iff walk.payloadMap_separated, walk.toList_payloadMap]
  constructor
  · rintro ⟨value, ⟨i, member, ⟨lower, upper⟩, rfl⟩, rfl⟩
    obtain ⟨span, spanMember, rfl⟩ := List.mem_map.mp member
    exact ⟨span, spanMember, lower, upper, rfl⟩
  · rintro ⟨span, member, lower, upper, rfl⟩
    exact ⟨_, ⟨span.interval, List.mem_map_of_mem member, ⟨lower, upper⟩, rfl⟩, rfl⟩

end Walk

/-- The loop ends without fault exactly with the items of a walk through the whole code. -/
theorem disassembleItems_ok_iff {code : List UInt8} {base : UInt32} {pool : ConstantPool} {items : List Item} :
    (disassembleItems code base pool).value = .ok items ↔ Walk code base pool 0 items code.length := by
  by_cases odd : code.length % 2 = 1
  · rw [disassembleItems, if_pos odd]
    constructor
    · intro failed
      cases failed
    · intro walk
      have even := walk.stop_even rfl
      omega
  · have atEnd := stuck_length code base pool
    obtain ⟨found, stop, walk, result⟩ := sweep_walk code base pool [] [] (Nat.zero_le _)
    rw [List.drop_zero] at result
    rw [disassembleItems, if_neg odd]
    rcases result with ⟨rfl, run⟩ | ⟨e, before, failed, run⟩
    · rw [run]
      constructor
      · intro same
        cases same
        exact walk
      · intro other
        rw [(other.unique walk atEnd atEnd).1]
        rfl
    · rw [run]
      constructor
      · intro same
        cases same
      · intro other
        have same := (other.unique walk atEnd ⟨e, failed⟩).2
        omega

/-- The payload map holds the blocks that the loop skipped, one by one and in ascending order, and finds each at
its own bytes. Every byte of the code belongs to one instruction or to one block, and all of them start and end on
code units. -/
theorem disassemble_coverage {code : List UInt8} {base : UInt32} {pool : ConstantPool} {d : Disassembly}
    (run : (disassemble code base pool).value = .ok d) :
    (∃ items, (disassembleItems code base pool).value = .ok items ∧ d.payloads = items.filterMap Item.payload?) ∧
    d.payloads.Pairwise PayloadSpan.Before ∧
    (∀ offset kind, d.payloadKindAt? offset = some kind ↔
      ∃ span ∈ d.payloads, span.start ≤ offset ∧ offset < span.start + span.length ∧ span.kind = kind) ∧
    (∀ offset, d.instructions.countP (fun i => i.offset ≤ offset ∧ offset < i.offset + i.size) +
        d.payloads.countP (fun span => span.start ≤ offset ∧ offset < span.start + span.length) =
      if offset < code.length then 1 else 0) ∧
    (∀ i ∈ d.instructions, i.offset % 2 = 0 ∧ (i.offset + i.size) % 2 = 0) ∧
    ∀ span ∈ d.payloads, span.start % 2 = 0 ∧ (span.start + span.length) % 2 = 0 := by
  obtain ⟨items, walk, rfl⟩ := disassemble_ok_iff.mp run
  have ordered : (Disassembly.ofItems items).payloads.Pairwise PayloadSpan.Before := by
    rw [walk.payloads_ofItems]
    exact walk.spans_ordered
  have count (offset : Nat) := walk.ranges_perm.countP_eq fun range => range.1 ≤ offset ∧ offset < range.2
  have even : ∀ range ∈ (Disassembly.ofItems items).ranges, range.1 % 2 = 0 ∧ range.2 % 2 = 0 := fun range member =>
    walk.range_even rfl range (walk.ranges_perm.mem_iff.mp member)
  refine ⟨⟨items, disassembleItems_ok_iff.mpr walk, walk.payloads_ofItems⟩, ordered,
    fun offset kind => walk.payloadKindAt?_eq_some_iff, fun offset => ?_, fun i member => ?_, fun span member => ?_⟩
  · have total := (count offset).trans (walk.count_range offset)
    simpa [Disassembly.ranges, List.countP_append, List.countP_map, Function.comp_def] using total
  · exact even (i.offset, i.offset + i.size) (List.mem_append_left _ (List.mem_map_of_mem member))
  · exact even (span.start, span.start + span.length) (List.mem_append_right _ (List.mem_map_of_mem member))

/-- Two touching blocks of one kind and the `return-void` behind them. -/
theorem coverage_touching_switches :
    let block : List UInt8 := [0, 1, 1, 0, 0, 0, 0, 0, 0, 0, 0, 0]
    ∃ d, (disassemble (block ++ block ++ [0x0e, 0]) 0 .placeholder).value = .ok d ∧
      d.payloads = [⟨0, 12, .packedSwitch⟩, ⟨12, 12, .packedSwitch⟩] ∧ d.payloadKindAt? 12 = some .packedSwitch ∧
      d.instructions.countP (fun i => i.offset ≤ 25 ∧ 25 < i.offset + i.size) +
        d.payloads.countP (fun span => span.start ≤ 25 ∧ 25 < span.start + span.length) = 1 := by
  intro block
  have walk : Walk (block ++ block ++ [0x0e, 0]) 0 .placeholder 0
      [.payload ⟨0, 12, .packedSwitch⟩, .payload ⟨12, 12, .packedSwitch⟩, .instruction ⟨24, .ofByte 0x0e, []⟩] 26 :=
    .next rfl (.next rfl (.next rfl .stop))
  have payloads := walk.payloads_ofItems
  have run := walk.disassemble_ok
  obtain ⟨_, _, found, total, _, _⟩ := disassemble_coverage run
  refine ⟨_, run, payloads, (found 12 .packedSwitch).mpr ?_, ?_⟩
  · rw [payloads]
    exact ⟨⟨12, 12, .packedSwitch⟩, by simp [Item.payload?], by decide⟩
  · exact (total 25).trans (if_pos (by decide))

end Dalvik
