import Dalvik.Proofs.Coverage
import Dalvik.Proofs.FirstFault

namespace Dalvik

namespace Disassembly

/-- The start of the code, or the end of an instruction or payload block. -/
def IsBoundary (d : Disassembly) (offset : Nat) : Prop := offset = 0 ∨ ∃ range ∈ d.ranges, range.2 = offset

/-- The offset lies between two bytes of one instruction or payload block. -/
def Splits (d : Disassembly) (offset : Nat) : Prop := ∃ range ∈ d.ranges, range.1 < offset ∧ offset < range.2

end Disassembly

/-- An item is not decoded from less than all of its bytes. -/
theorem itemAt_take_short {code : List UInt8} {pc cut : Nat} {base : UInt32} {pool : ConstantPool} {item : Item}
    (found : (itemAt code pc base pool).value = .ok item) (short : cut < pc + item.size) :
    ∃ e, (itemAt (code.take cut) pc base pool).value = .error e ∧ e.kind = .truncatedBuffer := by
  refine Classical.byContradiction fun noFault => ?_
  have whole : ∀ e, (itemAt (code.take cut) pc base pool).value = .error e → e.kind ≠ .truncatedBuffer :=
    fun e failed isCut => noFault ⟨e, failed, isCut⟩
  -- Without such a fault the code before the cut gives the item already, which does not fit in it.
  have same := itemAt_append whole (code.drop cut)
  rw [List.take_append_drop] at same
  rw [same] at found
  obtain ⟨_, _, _, fits⟩ := itemAt_bounds found
  rw [List.length_take] at fits
  omega

namespace Walk

variable {code : List UInt8} {base : UInt32} {pool : ConstantPool} {pc stop cut : Nat} {items : List Item}

/-- An offset that a walk passes lies between two of its items or inside one. -/
theorem cut_cases (walk : Walk code base pool pc items stop) (lower : pc ≤ cut) (upper : cut ≤ stop) :
    (∃ before after, items = before ++ after ∧ Walk code base pool pc before cut ∧
      Walk code base pool cut after stop) ∨
    ∃ before item after, items = before ++ item :: after ∧ Walk code base pool pc before item.start ∧
      Walk code base pool item.start (item :: after) stop ∧ item.start < cut ∧ cut < item.start + item.size := by
  induction walk with
  | @stop pc =>
    obtain rfl : pc = cut := by omega
    exact Or.inl ⟨[], [], rfl, .stop, .stop⟩
  | @next pc stop item items found rest ih =>
    obtain ⟨start, _⟩ := itemAt_bounds found
    by_cases here : cut = pc
    · subst here
      exact Or.inl ⟨[], item :: items, rfl, .stop, .next found rest⟩
    by_cases inside : cut < pc + item.size
    · refine Or.inr ⟨[], item, items, rfl, ?_, ?_, by omega, by omega⟩
      · rw [start]
        exact .stop
      · rw [start]
        exact .next found rest
    · rcases ih (by omega) upper with ⟨before, after, rfl, walk, later⟩ |
        ⟨before, other, after, rfl, walk, later, within⟩
      · exact Or.inl ⟨item :: before, after, rfl, .next found walk, later⟩
      · exact Or.inr ⟨item :: before, other, after, rfl, .next found walk, later, within⟩

theorem stop_cases (walk : Walk code base pool pc items stop) :
    stop = pc ∨ ∃ item ∈ items, item.start + item.size = stop := by
  induction walk with
  | stop => exact Or.inl rfl
  | @next pc stop item items found rest ih =>
    obtain ⟨start, _⟩ := itemAt_bounds found
    rcases ih with atEnd | ⟨other, member, ends⟩
    · exact Or.inr ⟨item, List.mem_cons_self .., by omega⟩
    · exact Or.inr ⟨other, List.mem_cons_of_mem _ member, ends⟩

theorem exists_range_iff (walk : Walk code base pool pc items stop) {p : Nat × Nat → Prop} :
    (∃ range ∈ (Disassembly.ofItems items).ranges, p range) ↔ ∃ item ∈ items, p item.range := by
  simp only [walk.ranges_perm.mem_iff, List.mem_map]
  constructor
  · rintro ⟨_, ⟨item, member, rfl⟩, holds⟩
    exact ⟨item, member, holds⟩
  · rintro ⟨item, member, holds⟩
    exact ⟨_, ⟨item, member, rfl⟩, holds⟩

/-- Where one item ends and the next one starts, no item is split. -/
theorem isBoundary_between {before after : List Item} (walk : Walk code base pool 0 before cut)
    (later : Walk code base pool cut after stop) :
    (Disassembly.ofItems (before ++ after)).IsBoundary cut ∧
      ¬ (Disassembly.ofItems (before ++ after)).Splits cut := by
  have whole := walk.append later
  constructor
  · rcases walk.stop_cases with zero | ⟨item, member, ends⟩
    · exact Or.inl zero
    · exact Or.inr (whole.exists_range_iff.mpr ⟨item, List.mem_append_left _ member, ends⟩)
  · intro splits
    obtain ⟨item, member, starts, ends⟩ := whole.exists_range_iff.mp splits
    simp only [Item.range] at starts ends
    rcases List.mem_append.mp member with member | member
    · have bound := (walk.item_bounds member).2.1
      omega
    · have bound := (later.item_bounds member).1
      omega

/-- Inside an item no other one ends. -/
theorem splits_inside {before after : List Item} {item : Item} (walk : Walk code base pool 0 before item.start)
    (later : Walk code base pool item.start (item :: after) stop) (starts : item.start < cut)
    (ends : cut < item.start + item.size) :
    (Disassembly.ofItems (before ++ item :: after)).Splits cut ∧
      ¬ (Disassembly.ofItems (before ++ item :: after)).IsBoundary cut := by
  have whole := walk.append later
  constructor
  · exact whole.exists_range_iff.mpr ⟨item, by simp, starts, ends⟩
  · rintro (zero | ends')
    · omega
    · obtain ⟨other, member, atCut⟩ := whole.exists_range_iff.mp ends'
      simp only [Item.range] at atCut
      rcases List.mem_append.mp member with member | member
      · have bound := (walk.item_bounds member).2.1
        omega
      · cases later with
        | next found rest =>
          rcases List.mem_cons.mp member with rfl | member
          · omega
          · have bound := (rest.item_bounds member).1
            omega

/-- Of what a walk leads to, the part that ends before the cut is what the walk to the cut leads to. -/
theorem filter_before {β : Type} {part : Item → Option β} {stopOf : β → Nat} {before after : List Item}
    (walk : Walk code base pool pc before cut) (later : Walk code base pool cut after stop)
    (sameStop : ∀ item b, part item = some b → stopOf b = item.start + item.size) :
    ((before ++ after).filterMap part).filter (fun b => stopOf b ≤ cut) = before.filterMap part := by
  have kept : (before.filterMap part).filter (fun b => stopOf b ≤ cut) = before.filterMap part := by
    refine List.filter_eq_self.mpr fun b member => decide_eq_true ?_
    obtain ⟨item, itemMember, isPart⟩ := List.mem_filterMap.mp member
    rw [sameStop item b isPart]
    exact (walk.item_bounds itemMember).2.1
  have dropped : (after.filterMap part).filter (fun b => stopOf b ≤ cut) = [] := by
    refine List.filter_eq_nil_iff.mpr fun b member => ?_
    obtain ⟨item, itemMember, isPart⟩ := List.mem_filterMap.mp member
    obtain ⟨lower, _, found⟩ := later.item_bounds itemMember
    obtain ⟨_, positive, _, _⟩ := itemAt_bounds found
    rw [sameStop item b isPart, decide_eq_true_eq]
    omega
  rw [List.filterMap_append, List.filter_append, kept, dropped, List.append_nil]

end Walk

variable {code : List UInt8} {base : UInt32} {pool : ConstantPool} {cut : Nat}

theorem disassemble_take_between {before after : List Item} (walk : Walk code base pool 0 before cut)
    (later : Walk code base pool cut after code.length) :
    ∃ d', (disassemble (code.take cut) base pool).value = .ok d' ∧
      d'.instructions =
        (Disassembly.ofItems (before ++ after)).instructions.filter (fun i => i.offset + i.size ≤ cut) ∧
      d'.payloads = (Disassembly.ofItems (before ++ after)).payloads.filter fun span =>
        span.start + span.length ≤ cut := by
  have whole := walk.append later
  refine ⟨_, (disassemble_take_ok_iff later.le_stop).mpr ⟨before, walk, rfl⟩, ?_, ?_⟩
  · refine (walk.filter_before later ?_).symm
    rintro (i | span) b isPart <;> cases isPart
    rfl
  · rw [walk.payloads_ofItems, whole.payloads_ofItems]
    refine (walk.filter_before later ?_).symm
    rintro (i | span) b isPart <;> cases isPart
    rfl

theorem disassemble_take_inside {before : List Item} {item : Item} (inside : cut ≤ code.length)
    (walk : Walk code base pool 0 before item.start) (found : (itemAt code item.start base pool).value = .ok item)
    (starts : item.start < cut) (ends : cut < item.start + item.size) :
    ∃ e, (disassemble (code.take cut) base pool).value = .error e ∧ e.kind = .truncatedBuffer := by
  have length : (code.take cut).length = cut := List.length_take_of_le inside
  by_cases odd : cut % 2 = 1
  · exact ⟨_, disassemble_odd base pool (by omega), rfl⟩
  · obtain ⟨e, failed, isCut⟩ := itemAt_take_short found ends
    have same : (code.take cut).take item.start = code.take item.start := by
      rw [List.take_take, Nat.min_eq_left (Nat.le_of_lt starts)]
    exact ⟨e, (walk.congr same).disassemble_error (by omega) (by omega) failed, isCut⟩

/-- Code that decodes can be cut where an instruction or a payload block ends, and what stands before the cut is
then decoded as before. Cut anywhere else, at odd offsets and inside an instruction or block, it is found to be
incomplete. -/
theorem disassemble_take {d : Disassembly} (run : (disassemble code base pool).value = .ok d)
    (inside : cut ≤ code.length) :
    (d.IsBoundary cut → ∃ d', (disassemble (code.take cut) base pool).value = .ok d' ∧
      d'.instructions = d.instructions.filter (fun i => i.offset + i.size ≤ cut) ∧
      d'.payloads = d.payloads.filter fun span => span.start + span.length ≤ cut) ∧
    (¬ d.IsBoundary cut →
      ∃ e, (disassemble (code.take cut) base pool).value = .error e ∧ e.kind = .truncatedBuffer) ∧
    (¬ d.IsBoundary cut ↔ cut % 2 = 1 ∨ d.Splits cut) := by
  obtain ⟨items, whole, rfl⟩ := disassemble_ok_iff.mp run
  have even : cut % 2 = 1 → ¬ (Disassembly.ofItems items).IsBoundary cut := by
    rintro odd (zero | ⟨range, member, ends⟩)
    · omega
    · have rangeEven := (whole.range_even rfl range (whole.ranges_perm.mem_iff.mp member)).2
      omega
  rcases whole.cut_cases (Nat.zero_le cut) inside with ⟨before, after, rfl, walk, later⟩ |
    ⟨before, item, after, rfl, walk, later, starts, ends⟩
  · obtain ⟨boundary, notSplits⟩ := walk.isBoundary_between later
    refine ⟨fun _ => disassemble_take_between walk later, fun inner => absurd boundary inner,
      fun inner => absurd boundary inner, ?_⟩
    rintro (odd | splits)
    · exact even odd
    · exact absurd splits notSplits
  · obtain ⟨splits, notBoundary⟩ := walk.splits_inside later starts ends
    obtain ⟨_, _, found⟩ := later.item_bounds (List.mem_cons_self ..)
    exact ⟨fun boundary => absurd boundary notBoundary,
      fun _ => disassemble_take_inside inside walk found starts ends, fun _ => Or.inr splits, fun _ => notBoundary⟩

/-- A `const/4` and a switch block: the code can be cut between them, but not inside the block or the
instruction. -/
theorem disassemble_take_switch :
    let code : List UInt8 := [0x12, 0x10, 0, 1, 1, 0, 0, 0, 0, 0, 0, 0, 0, 0]
    (∃ d, (disassemble (code.take 2) 0 .placeholder).value = .ok d ∧
      d.instructions = [⟨0, .ofByte 0x12, [.register 0, .literal 1]⟩] ∧ d.payloads = []) ∧
    (∃ e, (disassemble (code.take 8) 0 .placeholder).value = .error e ∧ e.kind = .truncatedBuffer) ∧
    ∃ e, (disassemble (code.take 1) 0 .placeholder).value = .error e ∧ e.kind = .truncatedBuffer := by
  intro code
  have walk : Walk code 0 .placeholder 0
      [.instruction ⟨0, .ofByte 0x12, [.register 0, .literal 1]⟩, .payload ⟨2, 12, .packedSwitch⟩] code.length :=
    .next rfl (.next rfl .stop)
  have run := walk.disassemble_ok
  have between := disassemble_take run (show 2 ≤ code.length by decide)
  have inBlock := disassemble_take run (show 8 ≤ code.length by decide)
  have inInstruction := disassemble_take run (show 1 ≤ code.length by decide)
  refine ⟨between.1 (Or.inr ⟨(0, 2), by decide, rfl⟩), ?_, ?_⟩
  · exact inBlock.2.1 (inBlock.2.2.mpr (Or.inr ⟨(2, 14), by decide, by decide⟩))
  · exact inInstruction.2.1 (inInstruction.2.2.mpr (Or.inl rfl))

end Dalvik
