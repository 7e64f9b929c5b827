import Dalvik.Proofs.Items

namespace Dalvik

/-- The items that stand one after the other from one offset of the code up to another. -/
inductive Walk (code : List UInt8) (base : UInt32) (pool : ConstantPool) : Nat → List Item → Nat → Prop
  | stop {pc} : Walk code base pool pc [] pc
  | next {pc stop item items} : (itemAt code pc base pool).value = .ok item →
      Walk code base pool (pc + item.size) items stop → Walk code base pool pc (item :: items) stop

/-- No item can be decoded here. This is so at the end of the code, where there is nothing to decode. -/
def Stuck (code : List UInt8) (base : UInt32) (pool : ConstantPool) (pc : Nat) : Prop :=
  ∃ e, (itemAt code pc base pool).value = .error e

theorem stuck_length (code : List UInt8) (base : UInt32) (pool : ConstantPool) :
    Stuck code base pool code.length := by
  refine ⟨⟨.noInstruction code.length code.length, []⟩, ?_⟩
  simp only [itemAt, List.drop_length]

namespace Walk

variable {code : List UInt8} {base : UInt32} {pool : ConstantPool}

theorem append {pc middle stop : Nat} {items more : List Item} (first : Walk code base pool pc items middle)
    (second : Walk code base pool middle more stop) : Walk code base pool pc (items ++ more) stop := by
  induction first with
  | stop => exact second
  | next found _ ih => exact .next found (ih second)

theorem le_stop {pc stop : Nat} {items : List Item} (walk : Walk code base pool pc items stop) : pc ≤ stop := by
  induction walk with
  | stop => exact Nat.le_refl _
  | next _ _ ih => omega

/-- A walk that starts on a code unit stays on code units. -/
theorem stop_even {pc stop : Nat} {items : List Item} (walk : Walk code base pool pc items stop)
    (even : pc % 2 = 0) : stop % 2 = 0 := by
  induction walk with
  | stop => exact even
  | next found _ ih =>
    obtain ⟨_, _, sizeEven, _⟩ := itemAt_bounds found
    exact ih (by omega)

/-- Two walks from one offset that cannot go on are the same. -/
theorem unique {pc stop stop' : Nat} {items items' : List Item} (walk : Walk code base pool pc items stop)
    (walk' : Walk code base pool pc items' stop') (stuck : Stuck code base pool stop)
    (stuck' : Stuck code base pool stop') : items = items' ∧ stop = stop' := by
  induction walk generalizing items' with
  | stop =>
    cases walk' with
    | stop => exact ⟨rfl, rfl⟩
    | next found _ =>
      obtain ⟨e, failed⟩ := stuck
      rw [failed] at found
      cases found
  | next found _ ih =>
    cases walk' with
    | stop =>
      obtain ⟨e, failed⟩ := stuck'
      rw [failed] at found
      cases found
    | next found' rest =>
      rw [found] at found'
      cases found'
      obtain ⟨sameItems, sameStop⟩ := ih rest stuck
      exact ⟨by rw [sameItems], sameStop⟩

/-- A walk depends on the code that it passes, not on what follows. -/
theorem congr {other : List UInt8} {pc stop : Nat} {items : List Item} (walk : Walk code base pool pc items stop)
    (same : other.take stop = code.take stop) : Walk other base pool pc items stop := by
  induction walk with
  | stop => exact .stop
  | @next pc stop item items found rest ih =>
    have before := rest.le_stop
    have own : (other.drop pc).take item.size = (code.drop pc).take item.size := by
      have inner := congrArg (fun bytes => (bytes.drop pc).take item.size) same
      simpa only [List.drop_take, List.take_take, Nat.min_eq_left (by omega : item.size ≤ stop - pc)] using inner
    exact .next (by rw [itemAt_congr found own, found]) (ih same)

end Walk

/-- What decoding the items logs, one after the other. -/
def logOf (code : List UInt8) (base : UInt32) (pool : ConstantPool) (items : List Item) : List Event :=
  items.flatMap fun item => (itemAt code item.start base pool).log

/-- The sweep follows the walk that cannot go on. It succeeds if this ends with the code, and fails with the
fault found there otherwise. -/
theorem sweep_walk (code : List UInt8) (base : UInt32) (pool : ConstantPool) {pc : Nat} (items : List Item)
    (log : List Event) (inside : pc ≤ code.length) :
    ∃ found stop, Walk code base pool pc found stop ∧
      ((stop = code.length ∧ sweep base pool pc items log (code.drop pc) =
          ⟨.ok (items.reverse ++ found), log.reverse ++ logOf code base pool found⟩) ∨
        ∃ e, stop < code.length ∧ (itemAt code stop base pool).value = .error e ∧
          sweep base pool pc items log (code.drop pc) =
            ⟨.error e, log.reverse ++ logOf code base pool found ++ (itemAt code stop base pool).log⟩) := by
  induction remaining : code.length - pc using Nat.strongRecOn generalizing pc items log with
  | ind n ih =>
    cases suffix : code.drop pc with
    | nil =>
      have atEnd : pc = code.length := by
        have past := List.drop_eq_nil_iff.mp suffix
        omega
      exact ⟨[], pc, .stop, Or.inl ⟨atEnd, by simp [sweep, logOf]⟩⟩
    | cons first rest =>
      have before : pc < code.length := by
        have longer := congrArg List.length suffix
        rw [List.length_drop, List.length_cons] at longer
        omega
      have here : itemAt code pc base pool = itemFrom pc first rest base pool := by simp only [itemAt, suffix]
      rw [sweep, ← here]
      cases decoded : itemAt code pc base pool with
      | mk value events =>
        cases value with
        | error e => exact ⟨[], pc, .stop, Or.inr ⟨e, before, by rw [decoded], by simp [decoded, logOf]⟩⟩
        | ok item =>
          have found : (itemAt code pc base pool).value = .ok item := by rw [decoded]
          obtain ⟨start, positive, _, fits⟩ := itemAt_bounds found
          have later : rest.drop (item.size - 1) = code.drop (pc + item.size) := by
            rw [← List.drop_drop, suffix, List.drop_cons (by omega)]
          obtain ⟨tail, stop, walk, result⟩ :=
            ih (code.length - (pc + item.size)) (by omega) (item :: items) (events.reverse ++ log) fits rfl
          refine ⟨item :: tail, stop, .next found walk, ?_⟩
          simpa [later, logOf, start, decoded] using result

theorem disassemble_eq_odd {code : List UInt8} (base : UInt32) (pool : ConstantPool) (odd : code.length % 2 = 1) :
    disassemble code base pool =
      ⟨.error ⟨.oddLength code.length, []⟩, [.aborting base ⟨.oddLength code.length, []⟩]⟩ := by
  simp only [disassemble, disassembleItems, if_pos odd, List.nil_append]

theorem disassemble_odd {code : List UInt8} (base : UInt32) (pool : ConstantPool) (odd : code.length % 2 = 1) :
    (disassemble code base pool).value = .error ⟨.oddLength code.length, []⟩ := by
  rw [disassemble_eq_odd base pool odd]

theorem disassemble_walk {code : List UInt8} (base : UInt32) (pool : ConstantPool) (even : code.length % 2 = 0) :
    ∃ items stop, Walk code base pool 0 items stop ∧
      ((stop = code.length ∧ disassemble code base pool = ⟨.ok (.ofItems items), logOf code base pool items⟩) ∨
        ∃ e, stop < code.length ∧ (itemAt code stop base pool).value = .error e ∧
          disassemble code base pool = ⟨.error e,
            logOf code base pool items ++ (itemAt code stop base pool).log ++ [.aborting base e]⟩) := by
  have notOdd : ¬ code.length % 2 = 1 := by omega
  obtain ⟨items, stop, walk, result⟩ := sweep_walk code base pool [] [] (Nat.zero_le _)
  refine ⟨items, stop, walk, ?_⟩
  rw [List.drop_zero] at result
  rcases result with ⟨atEnd, run⟩ | ⟨e, before, failed, run⟩
  · exact Or.inl ⟨atEnd, by simp [disassemble, disassembleItems, notOdd, run]⟩
  · exact Or.inr ⟨e, before, failed, by simp [disassemble, disassembleItems, notOdd, run]⟩

variable {code : List UInt8} {base : UInt32} {pool : ConstantPool}

theorem Walk.disassemble_eq_ok {items : List Item} (walk : Walk code base pool 0 items code.length) :
    disassemble code base pool = ⟨.ok (.ofItems items), logOf code base pool items⟩ := by
  have atEnd := stuck_length code base pool
  obtain ⟨found, stop, other, ⟨rfl, result⟩ | ⟨e, before, failed, _⟩⟩ :=
    disassemble_walk base pool (walk.stop_even rfl)
  · rw [result, (walk.unique other atEnd atEnd).1]
  · have same := (walk.unique other atEnd ⟨e, failed⟩).2
    omega

theorem Walk.disassemble_eq_error {items : List Item} {stop : Nat} {e : DecodeError}
    (walk : Walk code base pool 0 items stop) (even : code.length % 2 = 0) (before : stop < code.length)
    (failed : (itemAt code stop base pool).value = .error e) :
    disassemble code base pool =
      ⟨.error e, logOf code base pool items ++ (itemAt code stop base pool).log ++ [.aborting base e]⟩ := by
  obtain ⟨found, last, other, ⟨atEnd, _⟩ | ⟨e', _, failed', result⟩⟩ := disassemble_walk base pool even
  · have stuck := stuck_length code base pool
    rw [← atEnd] at stuck
    have same := (walk.unique other ⟨e, failed⟩ stuck).2
    omega
  · obtain ⟨rfl, rfl⟩ := walk.unique other ⟨e, failed⟩ ⟨e', failed'⟩
    rw [failed] at failed'
    cases failed'
    exact result

theorem Walk.disassemble_ok {items : List Item} (walk : Walk code base pool 0 items code.length) :
    (disassemble code base pool).value = .ok (.ofItems items) := by
  rw [walk.disassemble_eq_ok]

theorem Walk.disassemble_error {items : List Item} {stop : Nat} {e : DecodeError}
    (walk : Walk code base pool 0 items stop) (even : code.length % 2 = 0) (before : stop < code.length)
    (failed : (itemAt code stop base pool).value = .error e) : (disassemble code base pool).value = .error e := by
  rw [walk.disassemble_eq_error even before failed]

/-- Decoding succeeds exactly if a walk leads through the whole code. -/
theorem disassemble_ok_iff {d : Disassembly} :
    (disassemble code base pool).value = .ok d ↔
      ∃ items, Walk code base pool 0 items code.length ∧ d = .ofItems items := by
  refine ⟨fun run => ?_, fun ⟨items, walk, same⟩ => same ▸ walk.disassemble_ok⟩
  by_cases odd : code.length % 2 = 1
  · rw [disassemble_odd base pool odd] at run
    cases run
  · have even : code.length % 2 = 0 := by omega
    obtain ⟨items, stop, walk, ⟨rfl, result⟩ | ⟨e, _, _, result⟩⟩ := disassemble_walk base pool even
    · rw [result] at run
      cases run
      exact ⟨items, walk, rfl⟩
    · rw [result] at run
      cases run

/-- Decoding whole code units fails exactly if a walk stops before the end. -/
theorem disassemble_error_iff {e : DecodeError} (even : code.length % 2 = 0) :
    (disassemble code base pool).value = .error e ↔
      ∃ items stop, Walk code base pool 0 items stop ∧ stop < code.length ∧
        (itemAt code stop base pool).value = .error e := by
  refine ⟨fun run => ?_, fun ⟨items, stop, walk, before, failed⟩ => walk.disassemble_error even before failed⟩
  obtain ⟨items, stop, walk, ⟨_, result⟩ | ⟨e', before, failed, result⟩⟩ := disassemble_walk base pool even
  · rw [result] at run
    cases run
  · rw [result] at run
    cases run
    exact ⟨items, stop, walk, before, failed⟩

end Dalvik
