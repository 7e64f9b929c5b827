import Dalvik.Proofs.Walk

namespace Dalvik

/-- An interval that starts where the last one ends, or later, stays apart from it if their values differ. -/
theorem IntervalMap.insertInto_last {α : Type} [DecidableEq α] {new : Interval α} {intervals : List (Interval α)}
    (after : ∀ old ∈ intervals.head?, old.start < new.stop ∧ old.stop ≤ new.start ∧ old.value ≠ new.value) :
    insertInto new intervals = new :: intervals := by
  cases intervals with
  | nil => rfl
  | cons old rest =>
    obtain ⟨overlap, behind, different⟩ := after old rfl
    have notBefore : ¬ (new.stop < old.start ∨ new.stop = old.start ∧ new.value ≠ old.value) := by omega
    have isAfter : old.stop < new.start ∨ old.stop = new.start ∧ old.value ≠ new.value := by
      rcases Nat.lt_or_eq_of_le behind with apart | touching
      · exact Or.inl apart
      · exact Or.inr ⟨touching, different⟩
    rw [insertInto, if_neg notBefore, if_pos isAfter]

namespace PayloadSpan

/-- The entry of the payload map for a block. -/
def interval (span : PayloadSpan) : Interval (Nat × PayloadKind) :=
  ⟨span.start, span.start + span.length, (span.start, span.kind)⟩

/-- Not empty, and in front of the other block. -/
def Before (span other : PayloadSpan) : Prop := 0 < span.length ∧ span.start + span.length ≤ other.start

/-- Blocks entered in ascending order are kept one by one, since their starts tell them apart. -/
theorem foldl_insert {done todo : List PayloadSpan} (ordered : (done ++ todo).Pairwise Before) :
    todo.foldl (fun m span => m.insert span.interval) ⟨(done.map interval).reverse⟩ =
      (⟨((done ++ todo).map interval).reverse⟩ : IntervalMap (Nat × PayloadKind)) := by
  induction todo generalizing done with
  | nil => rw [List.append_nil, List.foldl_nil]
  | cons span todo ih =>
    have last : IntervalMap.insertInto span.interval (done.map interval).reverse =
        ((done ++ [span]).map interval).reverse := by
      rw [IntervalMap.insertInto_last]
      · simp
      · intro old member
        rw [List.head?_reverse, List.getLast?_map] at member
        obtain ⟨earlier, isLast, rfl⟩ := Option.map_eq_some_iff.mp member
        have inDone := List.mem_of_getLast? isLast
        obtain ⟨positive, behind⟩ :=
          (List.pairwise_append.mp ordered).2.2 earlier inDone span (List.mem_cons_self ..)
        refine ⟨?_, behind, ?_⟩
        · simp only [interval]
          omega
        · intro same
          have starts : earlier.start = span.start := congrArg Prod.fst same
          omega
    rw [List.foldl_cons, IntervalMap.insert, last, ih (by simpa using ordered)]
    simp

end PayloadSpan

namespace Walk

variable {code : List UInt8} {base : UInt32} {pool : ConstantPool} {pc stop : Nat} {items : List Item}

theorem item_bounds (walk : Walk code base pool pc items stop) {item : Item} (member : item ∈ items) :
    pc ≤ item.start ∧ item.start + item.size ≤ stop ∧ (itemAt code item.start base pool).value = .ok item := by
  induction walk with
  | stop => cases member
  | @next pc stop head items found rest ih =>
    obtain ⟨start, positive, _, _⟩ := itemAt_bounds found
    rcases List.mem_cons.mp member with rfl | later
    · rw [start]
      exact ⟨Nat.le_refl _, rest.le_stop, found⟩
    · obtain ⟨lower, upper, decoded⟩ := ih later
      exact ⟨by omega, upper, decoded⟩

theorem items_ordered (walk : Walk code base pool pc items stop) :
    items.Pairwise fun item later => 2 ≤ item.size ∧ item.start + item.size ≤ later.start := by
  induction walk with
  | stop => exact .nil
  | next found rest ih =>
    obtain ⟨start, positive, _, _⟩ := itemAt_bounds found
    refine .cons (fun later member => ⟨positive, ?_⟩) ih
    have bound := (rest.item_bounds member).1
    omega

theorem spans_ordered (walk : Walk code base pool pc items stop) :
    (items.filterMap Item.payload?).Pairwise PayloadSpan.Before := by
  refine walk.items_ordered.filterMap Item.payload? ?_
  rintro (_ | first) (_ | second) ⟨positive, behind⟩ span spanOf other otherOf
  all_goals cases spanOf
  all_goals cases otherOf
  exact ⟨Nat.lt_of_lt_of_le (by decide) positive, behind⟩

/-- The payload map gives back the blocks that were passed. -/
theorem toList_payloadMap (walk : Walk code base pool pc items stop) :
    (Disassembly.ofItems items).payloadMap.toList = (items.filterMap Item.payload?).map PayloadSpan.interval := by
  have entered : (Disassembly.ofItems items).payloadMap =
      ⟨((items.filterMap Item.payload?).map PayloadSpan.interval).reverse⟩ :=
    @PayloadSpan.foldl_insert [] _ walk.spans_ordered
  rw [entered, IntervalMap.toList, List.reverse_reverse]

theorem payloads_ofItems (walk : Walk code base pool pc items stop) :
    (Disassembly.ofItems items).payloads = items.filterMap Item.payload? := by
  rw [Disassembly.payloads, walk.toList_payloadMap, List.map_map]
  refine (List.map_congr_left fun span _ => ?_).trans (List.map_id _)
  simp [PayloadSpan.interval]

end Walk

end Dalvik
