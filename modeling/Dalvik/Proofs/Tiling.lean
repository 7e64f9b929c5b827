import Dalvik.Proofs.PayloadMap

namespace Dalvik

/-- The code holds the item at the item's own place. -/
def Item.StandsIn (code : List UInt8) (base : UInt32) (pool : ConstantPool) : Item → Prop
  | .payload span => payloadAt code span.start = .ok (some (span.kind, span.length))
  | .instruction i => payloadAt code i.offset = .ok none ∧ (instructionAt code i.offset base pool).value = .ok i

/-- The byte ranges of the items follow one another from `start` to `stop`, without gap or overlap. -/
def Tiles : Nat → List Item → Nat → Prop
  | start, [], stop => start = stop
  | start, item :: items, stop => item.start = start ∧ Tiles (start + item.size) items stop

/-- The items are the whole code, cut into what stands in it. -/
structure Covers (code : List UInt8) (base : UInt32) (pool : ConstantPool) (items : List Item) : Prop where
  tiles : Tiles 0 items code.length
  stands : ∀ item ∈ items, item.StandsIn code base pool

variable {code : List UInt8} {base : UInt32} {pool : ConstantPool}

theorem itemAt_ok_iff {pc : Nat} {item : Item} :
    (itemAt code pc base pool).value = .ok item ↔ item.start = pc ∧ item.StandsIn code base pool := by
  constructor
  · intro found
    obtain ⟨start, _⟩ := itemAt_bounds found
    refine ⟨start, ?_⟩
    rw [itemAt_value] at found
    rcases block : payloadAt code pc with fault | (_ | ⟨kind, length⟩)
    · rw [block] at found
      cases found
    · cases decoded : (instructionAt code pc base pool).value with
      | error e =>
        rw [block, decoded] at found
        cases found
      | ok i =>
        rw [block, decoded] at found
        cases found
        obtain rfl : i.offset = pc := start
        exact ⟨block, decoded⟩
    · rw [block] at found
      cases found
      exact block
  · rintro ⟨rfl, stands⟩
    rw [itemAt_value]
    cases item with
    | payload span =>
      rw [Item.start, show payloadAt code span.start = _ from stands]
    | instruction i =>
      rw [Item.start, stands.1, stands.2]
      rfl

theorem walk_iff_tiles {pc stop : Nat} {items : List Item} :
    Walk code base pool pc items stop ↔ Tiles pc items stop ∧ ∀ item ∈ items, item.StandsIn code base pool := by
  constructor
  · intro walk
    induction walk with
    | stop => exact ⟨rfl, fun _ member => by cases member⟩
    | next found _ ih =>
      obtain ⟨start, stands⟩ := itemAt_ok_iff.mp found
      exact ⟨⟨start, ih.1⟩, List.forall_mem_cons.mpr ⟨stands, ih.2⟩⟩
  · rintro ⟨tiles, stands⟩
    induction items generalizing pc with
    | nil =>
      obtain rfl : pc = stop := tiles
      exact .stop
    | cons item items ih =>
      obtain ⟨here, later⟩ := List.forall_mem_cons.mp stands
      exact .next (itemAt_ok_iff.mpr ⟨tiles.1, here⟩) (ih tiles.2 later)

theorem Covers.walk {items : List Item} (covers : Covers code base pool items) :
    Walk code base pool 0 items code.length := walk_iff_tiles.mpr ⟨covers.tiles, covers.stands⟩

theorem IntervalMap.toList_inj {α : Type} {m m' : IntervalMap α} (same : m.toList = m'.toList) : m = m' := by
  cases m
  cases m'
  simpa [toList] using same

/-- Decoding succeeds with `d` exactly if the code is a number of code units that is covered by items whose
instructions and payload blocks are those of `d`. There is at most one such cover. -/
theorem disassemble_ok_iff_covers (code : List UInt8) (base : UInt32) (pool : ConstantPool) (d : Disassembly) :
    ((disassemble code base pool).value = .ok d ↔
      code.length % 2 = 0 ∧ ∃ items, Covers code base pool items ∧
        d.instructions = items.filterMap Item.instruction? ∧
        d.payloadMap.toList = (items.filterMap Item.payload?).map fun span =>
          ⟨span.start, span.start + span.length, (span.start, span.kind)⟩) ∧
      ∀ items items', Covers code base pool items → Covers code base pool items' → items = items' := by
  refine ⟨⟨fun run => ?_, ?_⟩, fun items items' covers covers' => ?_⟩
  · obtain ⟨items, walk, rfl⟩ := disassemble_ok_iff.mp run
    obtain ⟨tiles, stands⟩ := walk_iff_tiles.mp walk
    exact ⟨walk.stop_even rfl, items, ⟨tiles, stands⟩, rfl, walk.toList_payloadMap⟩
  · rintro ⟨_, items, covers, instructions, payloads⟩
    refine disassemble_ok_iff.mpr ⟨items, covers.walk, ?_⟩
    have sameMap := IntervalMap.toList_inj (payloads.trans covers.walk.toList_payloadMap.symm)
    cases d
    cases instructions
    cases sameMap
    rfl
  · have atEnd := stuck_length code base pool
    exact (covers.walk.unique covers'.walk atEnd atEnd).1

end Dalvik
