import Dalvik.Proofs.Walk

namespace Dalvik

/-- The error that decoding what stands at an offset ends in. A fault of a payload block is placed at the block. -/
def FaultAt (code : List UInt8) (base : UInt32) (pool : ConstantPool) (pc : Nat) (e : DecodeError) : Prop :=
  (∃ fault, payloadAt code pc = .error fault ∧ e = (⟨fault, []⟩ : DecodeError).inContext (.payload pc) ∧
      e.contexts.map Context.text = ["payload at 0x" ++ hex pc]) ∨
    (payloadAt code pc = .ok none ∧ (instructionAt code pc base pool).value = .error e)

/-- The code before an offset can be decoded, and what stands there cannot. -/
structure FirstFault (code : List UInt8) (base : UInt32) (pool : ConstantPool) (pc : Nat) (e : DecodeError) :
    Prop where
  even : pc % 2 = 0
  inside : pc < code.length
  before : ∃ d, (disassemble (code.take pc) base pool).value = .ok d
  fault : FaultAt code base pool pc e

variable {code : List UInt8} {base : UInt32} {pool : ConstantPool}

theorem itemAt_error_iff {pc : Nat} {e : DecodeError} :
    (itemAt code pc base pool).value = .error e ↔ FaultAt code base pool pc e := by
  rw [itemAt_value, FaultAt]
  rcases block : payloadAt code pc with fault | (_ | ⟨kind, length⟩)
  · constructor
    · intro failed
      cases failed
      exact Or.inl ⟨fault, rfl, rfl, rfl⟩
    · rintro (⟨fault, same, rfl, _⟩ | ⟨none, _⟩)
      · cases same
        rfl
      · cases none
  · cases (instructionAt code pc base pool).value <;> simp [Except.map]
  · simp

theorem Walk.take_iff {pc stop : Nat} {items : List Item} :
    Walk (code.take stop) base pool pc items stop ↔ Walk code base pool pc items stop := by
  have same : (code.take stop).take stop = code.take stop := by rw [List.take_take, Nat.min_self]
  exact ⟨fun walk => walk.congr same.symm, fun walk => walk.congr same⟩

/-- The beginnings of a code that decode are those that a walk ends at. -/
theorem disassemble_take_ok_iff {pc : Nat} {d : Disassembly} (inside : pc ≤ code.length) :
    (disassemble (code.take pc) base pool).value = .ok d ↔
      ∃ items, Walk code base pool 0 items pc ∧ d = .ofItems items := by
  rw [disassemble_ok_iff, List.length_take_of_le inside]
  simp only [Walk.take_iff]

/-- A walk that cannot go on before the end of the code has come to the first fault. -/
theorem Walk.firstFault {pc : Nat} {e : DecodeError} {items : List Item} (walk : Walk code base pool 0 items pc)
    (inside : pc < code.length) (failed : (itemAt code pc base pool).value = .error e) :
    FirstFault code base pool pc e := by
  have before := (disassemble_take_ok_iff (Nat.le_of_lt inside)).mpr ⟨items, walk, rfl⟩
  exact ⟨walk.stop_even rfl, inside, ⟨_, before⟩, itemAt_error_iff.mp failed⟩

theorem FirstFault.walk {pc : Nat} {e : DecodeError} (first : FirstFault code base pool pc e) :
    ∃ items, Walk code base pool 0 items pc ∧ (itemAt code pc base pool).value = .error e := by
  obtain ⟨d, run⟩ := first.before
  obtain ⟨items, walk, _⟩ := (disassemble_take_ok_iff (Nat.le_of_lt first.inside)).mp run
  exact ⟨items, walk, itemAt_error_iff.mpr first.fault⟩

theorem FirstFault.offset_unique {pc pc' : Nat} {e e' : DecodeError} (first : FirstFault code base pool pc e)
    (first' : FirstFault code base pool pc' e') : pc = pc' := by
  obtain ⟨items, walk, failed⟩ := first.walk
  obtain ⟨items', walk', failed'⟩ := first'.walk
  exact (walk.unique walk' ⟨e, failed⟩ ⟨e', failed'⟩).2

/-- Decoding fails either because half a code unit is left over, or with the error of the first offset at which
nothing can be decoded. -/
theorem disassemble_error_iff_firstFault (code : List UInt8) (base : UInt32) (pool : ConstantPool)
    (e : DecodeError) :
    ((disassemble code base pool).value = .error e ↔
      (code.length % 2 = 1 ∧ e = ⟨.oddLength code.length, []⟩ ∧ e.kind = .truncatedBuffer) ∨
      (code.length % 2 = 0 ∧ ∃ pc, FirstFault code base pool pc e)) ∧
      ∀ pc pc' e', FirstFault code base pool pc e → FirstFault code base pool pc' e' → pc = pc' := by
  refine ⟨?_, fun pc pc' e' first first' => first.offset_unique first'⟩
  by_cases odd : code.length % 2 = 1
  · rw [disassemble_odd base pool odd]
    constructor
    · intro failed
      cases failed
      exact Or.inl ⟨odd, rfl, rfl⟩
    · rintro (⟨_, rfl, _⟩ | ⟨even, _⟩)
      · rfl
      · omega
  · have even : code.length % 2 = 0 := by omega
    rw [disassemble_error_iff even]
    constructor
    · rintro ⟨items, pc, walk, inside, failed⟩
      have before := (disassemble_take_ok_iff (Nat.le_of_lt inside)).mpr ⟨items, walk, rfl⟩
      exact Or.inr ⟨even, pc, walk.stop_even rfl, inside, ⟨_, before⟩, itemAt_error_iff.mp failed⟩
    · rintro (⟨isOdd, _⟩ | ⟨_, pc, first⟩)
      · omega
      · obtain ⟨items, walk, failed⟩ := first.walk
        exact ⟨items, pc, walk, first.inside, failed⟩

end Dalvik
