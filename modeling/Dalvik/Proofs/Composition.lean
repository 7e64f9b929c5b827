import Dalvik.Proofs.PayloadMap

namespace Dalvik

/-- The instruction as it stands behind `n` more bytes. What its operands say does not depend on its place. -/
def Instruction.shift (n : Nat) (i : Instruction) : Instruction := { i with offset := i.offset + n }

def PayloadSpan.shift (n : Nat) (span : PayloadSpan) : PayloadSpan := { span with start := span.start + n }

namespace Item

def shift (n : Nat) : Item → Item
  | instruction i => instruction (i.shift n)
  | payload span => payload (span.shift n)

@[simp] theorem size_shift (n : Nat) (item : Item) : (item.shift n).size = item.size := by
  cases item <;> rfl

@[simp] theorem instruction?_shift (n : Nat) (item : Item) :
    (item.shift n).instruction? = item.instruction?.map (Instruction.shift n) := by
  cases item <;> rfl

@[simp] theorem payload?_shift (n : Nat) (item : Item) :
    (item.shift n).payload? = item.payload?.map (PayloadSpan.shift n) := by
  cases item <;> rfl

theorem filterMap_instruction?_shift (n : Nat) (items : List Item) :
    (items.map (shift n)).filterMap instruction? = (items.filterMap instruction?).map (Instruction.shift n) := by
  rw [List.filterMap_map, List.map_filterMap]
  simp only [Function.comp_def, instruction?_shift]

theorem filterMap_payload?_shift (n : Nat) (items : List Item) :
    (items.map (shift n)).filterMap payload? = (items.filterMap payload?).map (PayloadSpan.shift n) := by
  rw [List.filterMap_map, List.map_filterMap]
  simp only [Function.comp_def, payload?_shift]

end Item

/-- Code in front of an item moves it and leaves it, or the kind of its fault, as it is. -/
theorem itemAt_shift (before code : List UInt8) (pc : Nat) (base : UInt32) (pool : ConstantPool) :
    (itemAt (before ++ code) (pc + before.length) base pool).value.mapError DecodeError.kind =
      ((itemAt code pc base pool).value.map (Item.shift before.length)).mapError DecodeError.kind := by
  have suffix : (before ++ code).drop (pc + before.length) = code.drop pc := by
    rw [Nat.add_comm, List.drop_length_add_append]
  unfold itemAt
  rw [suffix]
  cases code.drop pc with
  | nil => rfl
  | cons first rest =>
    rcases block : scanPayload (first :: rest) with fault | (_ | ⟨kind, length⟩)
    · simp only [itemFrom, block]
      rfl
    · simp only [itemFrom, block, instructionFrom_value]
      split
      · rfl
      · unfold Opcode.instruction
        cases (Opcode.ofByte first).operands ((first :: rest).take (Opcode.ofByte first).format.size) base pool <;>
          rfl
    · simp only [itemFrom, block]
      rfl

theorem itemAt_shift_ok (before : List UInt8) {code : List UInt8} {pc : Nat} {base : UInt32} {pool : ConstantPool}
    {item : Item} (found : (itemAt code pc base pool).value = .ok item) :
    (itemAt (before ++ code) (pc + before.length) base pool).value = .ok (item.shift before.length) := by
  have moved := itemAt_shift before code pc base pool
  rw [found] at moved
  cases value : (itemAt (before ++ code) (pc + before.length) base pool).value with
  | error e =>
    rw [value] at moved
    cases moved
  | ok other =>
    rw [value] at moved
    cases moved
    rfl

theorem itemAt_shift_error (before : List UInt8) {code : List UInt8} {pc : Nat} {base : UInt32}
    {pool : ConstantPool} {e : DecodeError} (failed : (itemAt code pc base pool).value = .error e) :
    ∃ e', (itemAt (before ++ code) (pc + before.length) base pool).value = .error e' ∧ e'.kind = e.kind := by
  have moved := itemAt_shift before code pc base pool
  rw [failed] at moved
  cases value : (itemAt (before ++ code) (pc + before.length) base pool).value with
  | error e' =>
    rw [value] at moved
    exact ⟨e', rfl, Except.error.inj moved⟩
  | ok other =>
    rw [value] at moved
    cases moved

namespace Walk

variable {code : List UInt8} {base : UInt32} {pool : ConstantPool} {pc stop : Nat} {items : List Item}

theorem shift (before : List UInt8) (walk : Walk code base pool pc items stop) :
    Walk (before ++ code) base pool (pc + before.length) (items.map (Item.shift before.length))
      (stop + before.length) := by
  induction walk with
  | stop => exact .stop
  | next found _ ih =>
    refine .next (itemAt_shift_ok before found) ?_
    rw [Item.size_shift, Nat.add_right_comm]
    exact ih

theorem append_code (walk : Walk code base pool pc items stop) (inside : stop ≤ code.length) (more : List UInt8) :
    Walk (code ++ more) base pool pc items stop :=
  walk.congr (List.take_append_of_le_length inside)

/-- A walk through the first part of the code, and one that starts where it ends. -/
theorem join {more : List UInt8} {items' : List Item} (walk : Walk code base pool 0 items code.length)
    (walk' : Walk more base pool 0 items' stop) :
    Walk (code ++ more) base pool 0 (items ++ items'.map (Item.shift code.length)) (stop + code.length) := by
  have second := walk'.shift code
  rw [Nat.zero_add] at second
  exact (walk.append_code (Nat.le_refl _) more).append second

end Walk

theorem disassemble_append_ok {a b : List UInt8} {base : UInt32} {pool : ConstantPool} {da db : Disassembly}
    (first : (disassemble a base pool).value = .ok da) (second : (disassemble b base pool).value = .ok db) :
    ∃ d, (disassemble (a ++ b) base pool).value = .ok d ∧
      d.instructions = da.instructions ++ db.instructions.map (Instruction.shift a.length) ∧
      d.payloads = da.payloads ++ db.payloads.map (PayloadSpan.shift a.length) := by
  obtain ⟨items, walk, rfl⟩ := disassemble_ok_iff.mp first
  obtain ⟨items', walk', rfl⟩ := disassemble_ok_iff.mp second
  have both := walk.join walk'
  rw [Nat.add_comm, ← List.length_append] at both
  refine ⟨_, both.disassemble_ok, ?_, ?_⟩
  · simp only [Disassembly.ofItems, List.filterMap_append, Item.filterMap_instruction?_shift]
  · rw [both.payloads_ofItems, walk.payloads_ofItems, walk'.payloads_ofItems, List.filterMap_append,
      Item.filterMap_payload?_shift]

theorem disassemble_append_error {a b : List UInt8} {base : UInt32} {pool : ConstantPool} {da : Disassembly}
    {e : DecodeError} (first : (disassemble a base pool).value = .ok da)
    (second : (disassemble b base pool).value = .error e) :
    ∃ e', (disassemble (a ++ b) base pool).value = .error e' ∧ e'.kind = e.kind := by
  obtain ⟨items, walk, rfl⟩ := disassemble_ok_iff.mp first
  have even := walk.stop_even rfl
  have total : (a ++ b).length = a.length + b.length := List.length_append
  by_cases odd : b.length % 2 = 1
  · rw [disassemble_odd base pool odd] at second
    cases second
    exact ⟨_, disassemble_odd base pool (by omega), rfl⟩
  · obtain ⟨items', stop, walk', before, failed⟩ := (disassemble_error_iff (by omega)).mp second
    obtain ⟨e', failed', sameKind⟩ := itemAt_shift_error a failed
    exact ⟨e', (walk.join walk').disassemble_error (by omega) (by omega) failed', sameKind⟩

theorem disassemble_append_fault {a b : List UInt8} {base : UInt32} {pool : ConstantPool} {e : DecodeError}
    (failed : (disassemble a base pool).value = .error e) (notCut : e.kind ≠ .truncatedBuffer)
    (evenMore : b.length % 2 = 0) : (disassemble (a ++ b) base pool).value = .error e := by
  have even : a.length % 2 = 0 := by
    by_cases odd : a.length % 2 = 1
    · rw [disassemble_odd base pool odd] at failed
      cases failed
      exact absurd rfl notCut
    · omega
  obtain ⟨items, stop, walk, before, fault⟩ := (disassemble_error_iff even).mp failed
  have same : itemAt (a ++ b) stop base pool = itemAt a stop base pool := by
    refine itemAt_append (fun e' fault' => ?_) b
    rw [fault] at fault'
    cases fault'
    exact notCut
  have total : (a ++ b).length = a.length + b.length := List.length_append
  exact (walk.append_code (Nat.le_of_lt before) b).disassemble_error (by omega) (by omega) (by rw [same, fault])

/-- Decoding goes part by part. Behind code that decodes, the second part gives what it gives by itself, moved to
its place, or fails as it does by itself; and a fault other than missing code is not mended by more code. -/
theorem disassemble_append (a b : List UInt8) (base : UInt32) (pool : ConstantPool) :
    (∀ da, (disassemble a base pool).value = .ok da →
      (∀ db, (disassemble b base pool).value = .ok db →
        ∃ d, (disassemble (a ++ b) base pool).value = .ok d ∧
          d.instructions = da.instructions ++ db.instructions.map (Instruction.shift a.length) ∧
          d.payloads = da.payloads ++ db.payloads.map (PayloadSpan.shift a.length)) ∧
      ∀ e, (disassemble b base pool).value = .error e →
        ∃ e', (disassemble (a ++ b) base pool).value = .error e' ∧ e'.kind = e.kind) ∧
    ∀ e, (disassemble a base pool).value = .error e →
      e.kind = .malformedInstruction ∨ e.kind = .unresolvedPoolIndex → b.length % 2 = 0 →
        (disassemble (a ++ b) base pool).value = .error e := by
  refine ⟨fun da first => ⟨fun db second => disassemble_append_ok first second,
    fun e second => disassemble_append_error first second⟩, fun e failed kind evenMore => ?_⟩
  have notCut : e.kind ≠ .truncatedBuffer := by
    rcases kind with malformed | unresolved
    · rw [malformed]
      decide
    · rw [unresolved]
      decide
  exact disassemble_append_fault failed notCut evenMore

/-- Two touching blocks of one kind stay two, and a call with too many arguments is found before and behind a
block. -/
theorem disassemble_append_switch :
    let block : List UInt8 := [0, 1, 1, 0, 0, 0, 0, 0, 0, 0, 0, 0]
    let malformed : List UInt8 := [0x6e, 0x60, 0, 0, 0, 0]
    (∃ d, (disassemble (block ++ block) 0 .placeholder).value = .ok d ∧
      d.payloads = [⟨0, 12, .packedSwitch⟩, ⟨12, 12, .packedSwitch⟩]) ∧
    (∃ e, (disassemble (block ++ malformed) 0 .placeholder).value = .error e ∧ e.kind = .malformedInstruction) ∧
    (disassemble (malformed ++ block) 0 .placeholder).value =
      .error ⟨.tooManyArguments "invoke-virtual" 6, [.instruction "invoke-virtual" 0]⟩ := by
  intro block malformed
  have walk : Walk block 0 .placeholder 0 [.payload ⟨0, 12, .packedSwitch⟩] block.length := .next rfl .stop
  have decoded := walk.disassemble_ok
  have start : Walk malformed 0 .placeholder 0 [] 0 := .stop
  have failed : (disassemble malformed 0 .placeholder).value =
      .error ⟨.tooManyArguments "invoke-virtual" 6, [.instruction "invoke-virtual" 0]⟩ :=
    start.disassemble_error (by simp [malformed]) (by simp [malformed]) rfl
  obtain ⟨parts, _⟩ := disassemble_append block block 0 .placeholder
  obtain ⟨behind, _⟩ := disassemble_append block malformed 0 .placeholder
  obtain ⟨_, front⟩ := disassemble_append malformed block 0 .placeholder
  obtain ⟨d, run, _, payloads⟩ := (parts _ decoded).1 _ decoded
  obtain ⟨e, run', kind⟩ := (behind _ decoded).2 _ failed
  exact ⟨⟨d, run, payloads.trans rfl⟩, ⟨e, run', kind⟩, front _ failed (Or.inl rfl) (by simp [block])⟩

end Dalvik
