import Dalvik.IntervalMap

namespace Dalvik

namespace Interval

variable {α : Type}

/-- The interval ends before the other one starts, or touches it and holds another value. -/
def Precedes (i j : Interval α) : Prop := i.stop < j.start ∨ (i.stop = j.start ∧ i.value ≠ j.value)

theorem Precedes.stop_le {i j : Interval α} (precedes : i.Precedes j) : i.stop ≤ j.start := by
  rcases precedes with apart | ⟨touching, _⟩ <;> omega

theorem start_lt_stop_of_not_precedes {i j : Interval α} (overlap : ¬ i.Precedes j)
    (different : i.value ≠ j.value) :
    j.start < i.stop := by
  refine Nat.lt_of_not_le fun behind => overlap ?_
  rcases Nat.lt_or_eq_of_le behind with apart | touching
  · exact Or.inl apart
  · exact Or.inr ⟨touching, different⟩

end Interval

namespace IntervalMap

variable {α : Type}

/-- The intervals stand in descending order, none is empty, no two overlap, and two that touch hold different
values. -/
def Separated : List (Interval α) → Prop
  | [] => True
  | i :: rest => i.start < i.stop ∧ (∀ j ∈ rest, j.Precedes i) ∧ Separated rest

/-- The value of the first interval that contains the offset. -/
def valueIn (intervals : List (Interval α)) (offset : Nat) : Option α :=
  (intervals.find? fun i => i.Contains offset).map (·.value)

theorem valueIn_cons (i : Interval α) (rest : List (Interval α)) (offset : Nat) :
    valueIn (i :: rest) offset = if i.Contains offset then some i.value else valueIn rest offset := by
  by_cases inside : i.Contains offset <;> simp [valueIn, inside]

theorem valueIn_eq_some_iff {intervals : List (Interval α)} {offset : Nat} {value : α}
    (separated : Separated intervals) :
    valueIn intervals offset = some value ↔ ∃ i ∈ intervals, i.Contains offset ∧ i.value = value := by
  induction intervals with
  | nil => simp [valueIn]
  | cons i rest ih =>
    obtain ⟨_, others, later⟩ := separated
    simp only [valueIn_cons, List.mem_cons, or_and_right, exists_or, exists_eq_left]
    by_cases inside : i.Contains offset
    · have alone : ¬ ∃ j ∈ rest, j.Contains offset ∧ j.value = value := by
        rintro ⟨j, member, ⟨_, before⟩, _⟩
        have bound := (others j member).stop_le
        have after := inside.1
        omega
      simp [inside, alone]
    · simp [inside, ih later]

/-- A look-up finds what the intervals hold. -/
theorem get?_eq_some_iff {m : IntervalMap α} {offset : Nat} {value : α} (separated : Separated m.descending) :
    m.get? offset = some value ↔ ∃ i ∈ m.toList, i.Contains offset ∧ i.value = value := by
  simp only [toList, List.mem_reverse]
  exact valueIn_eq_some_iff separated

variable [DecidableEq α]

theorem valueIn_insertInto (new : Interval α) (intervals : List (Interval α)) (offset : Nat) :
    valueIn (insertInto new intervals) offset =
      if new.Contains offset then some new.value else valueIn intervals offset := by
  fun_induction insertInto new intervals with
  | case1 new => exact valueIn_cons new [] offset
  | case2 new old rest before ih =>
    simp only [valueIn_cons, ih]
    grind [Interval.Contains]
  | case3 new old rest _ behind => exact valueIn_cons new (old :: rest) offset
  | case4 new old rest notBefore notBehind same ih =>
    simp only [valueIn_cons, ih]
    grind [Interval.Contains]
  | case5 new old rest notBefore notBehind different after ih =>
    simp only [after]
    split <;> split <;> simp only [valueIn_cons, List.nil_append, List.cons_append, ih] <;>
      grind [Interval.Contains]

/-- Insertion overwrites: the new interval holds its value, and every other offset keeps the one it had. -/
theorem get?_insert (m : IntervalMap α) (new : Interval α) (offset : Nat) :
    (m.insert new).get? offset = if new.Contains offset then some new.value else m.get? offset :=
  valueIn_insertInto new m.descending offset

theorem insertInto_precedes {new bound : Interval α} {intervals : List (Interval α)} (before : new.Precedes bound)
    (others : ∀ i ∈ intervals, i.Precedes bound) : ∀ i ∈ insertInto new intervals, i.Precedes bound := by
  fun_induction insertInto new intervals with
  | case1 new => exact List.forall_mem_singleton.mpr before
  | case2 new old rest _ ih =>
    obtain ⟨here, later⟩ := List.forall_mem_cons.mp others
    exact List.forall_mem_cons.mpr ⟨here, ih before later⟩
  | case3 new old rest _ _ => exact List.forall_mem_cons.mpr ⟨before, others⟩
  | case4 new old rest notBefore notBehind same ih =>
    obtain ⟨here, later⟩ := List.forall_mem_cons.mp others
    refine ih ?_ later
    grind [Interval.Precedes]
  | case5 new old rest notBefore notBehind different after ih =>
    obtain ⟨here, later⟩ := List.forall_mem_cons.mp others
    have overlap : new.start < old.stop := Interval.start_lt_stop_of_not_precedes notBehind different
    have bounded := here.stop_le
    simp only [after, List.forall_mem_append]
    constructor
    · split
      · exact List.forall_mem_singleton.mpr here
      · exact List.forall_mem_nil _
    · split
      · exact List.forall_mem_cons.mpr ⟨before, List.forall_mem_cons.mpr ⟨Or.inl (by dsimp only; omega), later⟩⟩
      · exact ih before later

/-- What overwriting `old` leaves, apart from its bytes behind `new`. -/
theorem overwritten_separated {new old : Interval α} {rest left : List (Interval α)}
    (isLeft : left =
      if old.start < new.start then new :: ⟨old.start, new.start, old.value⟩ :: rest else insertInto new rest)
    (positive : new.start < new.stop) (different : old.value ≠ new.value) (started : old.start < new.stop)
    (separated : Separated (old :: rest)) (inserted : Separated (insertInto new rest)) :
    Separated left ∧ ∀ i ∈ left, i.Precedes ⟨new.stop, old.stop, old.value⟩ := by
  obtain ⟨_, others, later⟩ := separated
  have touches : new.Precedes ⟨new.stop, old.stop, old.value⟩ := Or.inr ⟨rfl, Ne.symm different⟩
  have apart : ∀ i ∈ rest, i.Precedes ⟨new.stop, old.stop, old.value⟩ := fun i member =>
    Or.inl (Nat.lt_of_le_of_lt (others i member).stop_le started)
  subst isLeft
  split
  · rename_i cut
    refine ⟨⟨positive, ?_, cut, others, later⟩, ?_⟩
    · refine List.forall_mem_cons.mpr ⟨Or.inr ⟨rfl, different⟩, fun i member => Or.inl ?_⟩
      exact Nat.lt_of_le_of_lt (others i member).stop_le cut
    · exact List.forall_mem_cons.mpr ⟨touches, List.forall_mem_cons.mpr ⟨Or.inl positive, apart⟩⟩
  · exact ⟨inserted, insertInto_precedes touches apart⟩

/-- Insertion keeps the intervals apart, and joins those of one value that would touch. -/
theorem insertInto_separated {new : Interval α} {intervals : List (Interval α)} (positive : new.start < new.stop)
    (separated : Separated intervals) : Separated (insertInto new intervals) := by
  fun_induction insertInto new intervals with
  | case1 new => exact ⟨positive, List.forall_mem_nil _, trivial⟩
  | case2 new old rest before ih =>
    obtain ⟨oldPositive, others, later⟩ := separated
    exact ⟨oldPositive, insertInto_precedes before others, ih positive later⟩
  | case3 new old rest _ behind =>
    refine ⟨positive, List.forall_mem_cons.mpr ⟨behind, fun i member => ?_⟩, separated⟩
    obtain ⟨oldPositive, others, _⟩ := separated
    have apart := (others i member).stop_le
    have bound := Interval.Precedes.stop_le behind
    exact Or.inl (by omega)
  | case4 new old rest _ _ _ ih =>
    obtain ⟨oldPositive, _, later⟩ := separated
    exact ih (show min _ _ < max _ _ by omega) later
  | case5 new old rest notBefore _ different after ih =>
    have started : old.start < new.stop := Interval.start_lt_stop_of_not_precedes notBefore (Ne.symm different)
    obtain ⟨leftSeparated, leftPrecedes⟩ :=
      overwritten_separated rfl positive different started separated (ih positive separated.2.2)
    simp only [after]
    split
    · rename_i cut
      exact ⟨cut, leftPrecedes, leftSeparated⟩
    · exact leftSeparated

theorem foldl_insert_separated {β : Type} (interval : β → Interval α) {entries : List β} {m : IntervalMap α}
    (positive : ∀ entry ∈ entries, (interval entry).start < (interval entry).stop)
    (separated : Separated m.descending) :
    Separated (entries.foldl (fun m entry => m.insert (interval entry)) m).descending := by
  induction entries generalizing m with
  | nil => exact separated
  | cons entry entries ih =>
    obtain ⟨here, later⟩ := List.forall_mem_cons.mp positive
    exact ih later (insertInto_separated here separated)

end IntervalMap

end Dalvik
