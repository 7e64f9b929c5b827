import Dalvik.Proofs.PayloadMap

namespace Dalvik

namespace Disassembly

/-- The instructions, and behind them the payload blocks. -/
def parts (d : Disassembly) : List Item := d.instructions.map .instruction ++ d.payloads.map .payload

/-- The instructions and the payload blocks together, in the order in which they start. -/
def items (d : Disassembly) : List Item := d.parts.mergeSort fun item later => item.start ≤ later.start

theorem items_perm (d : Disassembly) : d.items.Perm d.parts := List.mergeSort_perm _ _

theorem items_sorted (d : Disassembly) : d.items.Pairwise fun item later => item.start ≤ later.start := by
  have transitive : ∀ a b c : Item, decide (a.start ≤ b.start) = true → decide (b.start ≤ c.start) = true →
      decide (a.start ≤ c.start) = true := by
    simp only [decide_eq_true_eq]
    omega
  have total : ∀ a b : Item, (decide (a.start ≤ b.start) || decide (b.start ≤ a.start)) = true := by
    simp only [Bool.or_eq_true, decide_eq_true_eq]
    omega
  exact (List.pairwise_mergeSort transitive total d.parts).imp of_decide_eq_true

end Disassembly

namespace Item

theorem mem_filterMap_instruction? {items : List Item} {i : Instruction} :
    i ∈ items.filterMap instruction? ↔ .instruction i ∈ items := by
  rw [List.mem_filterMap]
  constructor
  · rintro ⟨item, member, same⟩
    cases item <;> cases same
    exact member
  · exact fun member => ⟨_, member, rfl⟩

theorem mem_filterMap_payload? {items : List Item} {span : PayloadSpan} :
    span ∈ items.filterMap payload? ↔ .payload span ∈ items := by
  rw [List.mem_filterMap]
  constructor
  · rintro ⟨item, member, same⟩
    cases item <;> cases same
    exact member
  · exact fun member => ⟨_, member, rfl⟩

/-- The items of each of the two sorts, taken together, are the items. -/
theorem parts_perm (items : List Item) :
    ((items.filterMap instruction?).map instruction ++ (items.filterMap payload?).map payload).Perm items := by
  induction items with
  | nil => exact .nil
  | cons item items ih =>
    cases item with
    | instruction i => exact ih.cons _
    | payload span => exact List.perm_middle.trans (ih.cons _)

end Item

namespace Walk

variable {code : List UInt8} {base : UInt32} {pool : ConstantPool} {pc stop : Nat} {items : List Item}

theorem starts_ascending (walk : Walk code base pool pc items stop) :
    items.Pairwise fun item later => item.start < later.start := by
  refine walk.items_ordered.imp ?_
  rintro item later ⟨positive, behind⟩
  omega

/-- Two items of a walk that share a byte are one. -/
theorem eq_of_overlap (walk : Walk code base pool pc items stop) {item other : Item} (member : item ∈ items)
    (otherMember : other ∈ items) {offset : Nat} (starts : item.start ≤ offset)
    (ends : offset < item.start + item.size)
    (otherStarts : other.start ≤ offset) (otherEnds : offset < other.start + other.size) : item = other := by
  induction walk with
  | stop => cases member
  | next found rest ih =>
    obtain ⟨start, _⟩ := itemAt_bounds found
    rcases List.mem_cons.mp member with rfl | later
    · rcases List.mem_cons.mp otherMember with rfl | otherLater
      · rfl
      · have behind := (rest.item_bounds otherLater).1
        omega
    · rcases List.mem_cons.mp otherMember with rfl | otherLater
      · have behind := (rest.item_bounds later).1
        omega
      · exact ih later otherLater

theorem parts_ofItems_perm (walk : Walk code base pool pc items stop) :
    (Disassembly.ofItems items).parts.Perm items := by
  rw [Disassembly.parts, walk.payloads_ofItems]
  exact Item.parts_perm items

/-- The order of the starts is the order in which the items were passed. -/
theorem items_ofItems (walk : Walk code base pool pc items stop) : (Disassembly.ofItems items).items = items := by
  have perm := (Disassembly.ofItems items).items_perm.trans walk.parts_ofItems_perm
  have ascending : items.Pairwise fun item later => item.start ≤ later.start :=
    walk.starts_ascending.imp Nat.le_of_lt
  refine perm.eq_of_pairwise (fun item other member otherMember le ge => ?_) (Disassembly.items_sorted _) ascending
  have inItems := perm.mem_iff.mp member
  obtain ⟨_, positive, _, _⟩ := itemAt_bounds (walk.item_bounds inItems).2.2
  obtain ⟨_, otherPositive, _, _⟩ := itemAt_bounds (walk.item_bounds otherMember).2.2
  exact walk.eq_of_overlap inItems otherMember (Nat.le_refl item.start) (by omega) ge (by omega)

end Walk

end Dalvik
