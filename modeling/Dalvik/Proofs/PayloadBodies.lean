import Dalvik.Proofs.Coverage
import Dalvik.Proofs.Tiling

namespace Dalvik

/-- The distance from the start of a block to its body, which is all that follows the marker and the header. -/
def PayloadKind.bodyOffset : PayloadKind → Nat
  | packedSwitch | sparseSwitch => 4
  | arrayData => 8

theorem PayloadKind.bodyOffset_eq (kind : PayloadKind) : kind.bodyOffset = kind.headerLength + 2 := by
  cases kind <;> rfl

/-- The byte belongs to the body of the block. -/
def PayloadSpan.InBody (span : PayloadSpan) (offset : Nat) : Prop :=
  span.start + span.kind.bodyOffset ≤ offset ∧ offset < span.start + span.length

/-- The byte belongs to the body of one of the payload blocks. -/
def Disassembly.InBody (d : Disassembly) (offset : Nat) : Prop := ∃ span ∈ d.payloads, span.InBody offset

theorem take_drop_congr {α : Type} {code other : List α} {start length : Nat}
    (same : ∀ offset, start ≤ offset → offset < start + length → other[offset]? = code[offset]?) :
    (other.drop start).take length = (code.drop start).take length := by
  refine List.ext_getElem? fun n => ?_
  simp only [List.getElem?_take, List.getElem?_drop]
  split
  · exact same (start + n) (by omega) (by omega)
  · rfl

namespace Walk

variable {code other : List UInt8} {base : UInt32} {pool : ConstantPool} {pc stop : Nat} {items : List Item}

/-- Code in which each item of a walk is found again leads to the same walk. -/
theorem congr_items (walk : Walk code base pool pc items stop)
    (same : ∀ item ∈ items, itemAt other item.start base pool = itemAt code item.start base pool) :
    Walk other base pool pc items stop := by
  induction walk with
  | stop => exact .stop
  | next found _ ih =>
    obtain ⟨here, later⟩ := List.forall_mem_cons.mp same
    obtain ⟨start, _⟩ := itemAt_bounds found
    rw [start] at here
    exact .next (by rw [here, found]) (ih later)

/-- A byte of an item changes only if the item is a block and the byte belongs to its body. -/
theorem same_byte (walk : Walk code base pool pc items stop)
    (same : ∀ offset, ¬ (Disassembly.ofItems items).InBody offset → other[offset]? = code[offset]?)
    {item : Item} (member : item ∈ items) {offset : Nat} (starts : item.start ≤ offset)
    (ends : offset < item.start + item.size) (outside : ∀ span, item = .payload span → ¬ span.InBody offset) :
    other[offset]? = code[offset]? := by
  refine same offset ?_
  rintro ⟨span, spanMember, inBody⟩
  rw [walk.payloads_ofItems] at spanMember
  have blockMember := Item.mem_filterMap_payload?.mp spanMember
  have blockStarts : span.start ≤ offset := Nat.le_of_add_right_le inBody.1
  have one := walk.eq_of_overlap member blockMember starts ends blockStarts inBody.2
  exact outside span one inBody

theorem itemAt_change_bodies (walk : Walk code base pool pc items stop) (length : other.length = code.length)
    (same : ∀ offset, ¬ (Disassembly.ofItems items).InBody offset → other[offset]? = code[offset]?)
    {item : Item} (member : item ∈ items) :
    itemAt other item.start base pool = itemAt code item.start base pool := by
  obtain ⟨_, _, found⟩ := walk.item_bounds member
  cases item with
  | instruction i =>
    refine itemAt_congr found (take_drop_congr fun offset starts ends => ?_)
    refine walk.same_byte same member starts ends fun span isBlock => ?_
    cases isBlock
  | payload span =>
    have block : payloadAt code span.start = .ok (some (span.kind, span.length)) := (itemAt_ok_iff.mp found).2
    obtain ⟨room, _, fits⟩ := scanPayload_bounds block
    have header : (other.drop span.start).take (span.kind.headerLength + 2) =
        (code.drop span.start).take (span.kind.headerLength + 2) := by
      refine take_drop_congr fun offset starts ends => ?_
      refine walk.same_byte same member starts ?_ ?_
      · simp only [Item.start, Item.size]
        omega
      · rintro block isBlock ⟨inBody, _⟩
        cases isBlock
        rw [PayloadKind.bodyOffset_eq] at inBody
        omega
    have otherBlock : payloadAt other span.start = .ok (some (span.kind, span.length)) := by
      refine scanPayload_header_congr block header ?_
      rw [List.length_drop] at fits ⊢
      omega
    rw [Item.start, itemAt_payload base pool block, itemAt_payload base pool otherBlock]

end Walk

theorem logOf_congr {code other : List UInt8} {base : UInt32} {pool : ConstantPool} {items : List Item}
    (same : ∀ item ∈ items, itemAt other item.start base pool = itemAt code item.start base pool) :
    logOf other base pool items = logOf code base pool items := by
  induction items with
  | nil => rfl
  | cons item items ih =>
    obtain ⟨here, later⟩ := List.forall_mem_cons.mp same
    simp only [logOf, List.flatMap_cons, here] at ih ⊢
    rw [ih later]

/-- The bodies of payload blocks are never read: whatever they hold, the same instructions and blocks are found,
and the same is logged. -/
theorem disassemble_change_bodies {code other : List UInt8} {base : UInt32} {pool : ConstantPool} {d : Disassembly}
    (run : (disassemble code base pool).value = .ok d) (length : other.length = code.length)
    (same : ∀ offset, ¬ d.InBody offset → other[offset]? = code[offset]?) :
    (disassemble other base pool).value = .ok d ∧
      (disassemble other base pool).log = (disassemble code base pool).log := by
  obtain ⟨items, walk, rfl⟩ := disassemble_ok_iff.mp run
  have sameItems : ∀ item ∈ items, itemAt other item.start base pool = itemAt code item.start base pool :=
    fun item member => walk.itemAt_change_bodies length same member
  have otherWalk := walk.congr_items sameItems
  rw [← length] at otherWalk
  rw [otherWalk.disassemble_eq_ok, walk.disassemble_eq_ok, logOf_congr sameItems]
  exact ⟨rfl, rfl⟩

/-- An array whose data are all zero, and one whose data would open a block that does not end or make a call with
too many arguments. -/
theorem disassemble_change_bodies_array :
    let array (data : List UInt8) : List UInt8 := [0, 3, 2, 0, 4, 0, 0, 0] ++ data ++ [0x0e, 0]
    ∃ d, (disassemble (array [0, 0, 0, 0, 0, 0, 0, 0]) 0 .placeholder).value = .ok d ∧
      d.payloads = [⟨0, 16, .arrayData⟩] ∧
      (∀ offset, ¬ d.InBody offset →
        (array [0, 3, 0xff, 0xff, 0x6e, 0x60, 0, 1])[offset]? = (array [0, 0, 0, 0, 0, 0, 0, 0])[offset]?) ∧
      (disassemble (array [0, 3, 0xff, 0xff, 0x6e, 0x60, 0, 1]) 0 .placeholder).value = .ok d := by
  intro array
  have walk : Walk (array [0, 0, 0, 0, 0, 0, 0, 0]) 0 .placeholder 0
      [.payload ⟨0, 16, .arrayData⟩, .instruction ⟨16, .ofByte 0x0e, []⟩] 18 := .next rfl (.next rfl .stop)
  have payloads := walk.payloads_ofItems
  have run := walk.disassemble_ok
  have bytes : ∀ offset < 18, ¬ (8 ≤ offset ∧ offset < 16) →
      (array [0, 3, 0xff, 0xff, 0x6e, 0x60, 0, 1])[offset]? = (array [0, 0, 0, 0, 0, 0, 0, 0])[offset]? := by decide
  have length : (array [0, 3, 0xff, 0xff, 0x6e, 0x60, 0, 1]).length = (array [0, 0, 0, 0, 0, 0, 0, 0]).length := rfl
  refine ⟨_, run, payloads, ?same, (disassemble_change_bodies run length ?same).1⟩
  intro offset outside
  by_cases inside : offset < 18
  · refine bytes offset inside fun inBody => outside ⟨⟨0, 16, .arrayData⟩, ?_, inBody⟩
    rw [payloads]
    exact List.mem_singleton_self _
  · rw [List.getElem?_eq_none (Nat.not_lt.mp inside), List.getElem?_eq_none (Nat.not_lt.mp inside)]

end Dalvik
