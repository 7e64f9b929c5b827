namespace Dalvik

/-- A value held on the offsets from `start` up to, but not including, `stop`. -/
structure Interval (α : Type) where
  start : Nat
  stop : Nat
  value : α
  deriving DecidableEq, Repr

namespace Interval

variable {α : Type}

def Contains (i : Interval α) (offset : Nat) : Prop := i.start ≤ offset ∧ offset < i.stop

instance (i : Interval α) (offset : Nat) : Decidable (i.Contains offset) :=
  inferInstanceAs (Decidable (_ ∧ _))

end Interval

/-- A map from offsets to values, kept as disjoint intervals of which the last stands first. Insertion leaves no
two intervals of one value that touch. -/
structure IntervalMap (α : Type) where
  descending : List (Interval α) := []
  deriving DecidableEq, Repr

namespace IntervalMap

variable {α : Type} [DecidableEq α]

/-- Overwrites what `new` overlaps and joins it with neighbours of the same value. -/
def insertInto (new : Interval α) : List (Interval α) → List (Interval α)
  | [] => [new]
  | old :: rest =>
    if new.stop < old.start ∨ (new.stop = old.start ∧ new.value ≠ old.value) then
      old :: insertInto new rest
    else if old.stop < new.start ∨ (old.stop = new.start ∧ old.value ≠ new.value) then
      new :: old :: rest
    else if old.value = new.value then
      insertInto ⟨min old.start new.start, max old.stop new.stop, new.value⟩ rest
    else
      let after := if new.stop < old.stop then [⟨new.stop, old.stop, old.value⟩] else []
      after ++
        if old.start < new.start then new :: ⟨old.start, new.start, old.value⟩ :: rest
        else insertInto new rest

def insert (m : IntervalMap α) (new : Interval α) : IntervalMap α := ⟨insertInto new m.descending⟩

/-- The intervals in ascending order. -/
def toList (m : IntervalMap α) : List (Interval α) := m.descending.reverse

def get? (m : IntervalMap α) (offset : Nat) : Option α :=
  (m.descending.find? fun i => i.Contains offset).map (·.value)

end IntervalMap

end Dalvik
