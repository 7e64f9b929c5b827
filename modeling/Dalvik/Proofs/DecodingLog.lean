import Dalvik.Proofs.FirstFault
import Dalvik.Proofs.ItemOrder

namespace Dalvik

/-- The level and the text of a message. -/
def Event.line (event : Event) : Level × String := (event.level, event.message)

/-- The line about an instruction whose operands are read from its bytes. -/
def Opcode.decodingLine (op : Opcode) (bytes : List UInt8) : Level × String :=
  (.trace, "decoding " ++ op.mnemonic ++ " (" ++ op.format.tag ++ ") from " ++ Event.bytesText bytes)

/-- The line about a payload block that is passed over. -/
def PayloadSpan.skippingLine (span : PayloadSpan) : Level × String :=
  (.debug,
    "[decode] skipping " ++ span.kind.name ++ " of " ++ decimal span.length ++ " bytes at 0x" ++ hex span.start)

/-- The line about a method that cannot be decoded. -/
def DecodeError.abortingLine (base : UInt32) (e : DecodeError) : Level × String :=
  (.warn, "[decode] aborting method decode at base 0x" ++ hex base.toNat ++ ": " ++ e.text)

/-- The line about an item of the code. -/
def Item.logLine (code : List UInt8) : Item → Level × String
  | instruction i => i.opcode.decodingLine ((code.drop i.offset).take i.size)
  | payload span => span.skippingLine

/-- The opcode at an offset, if the code has all bytes of its instruction. -/
def wholeOpcodeAt? (code : List UInt8) (pc : Nat) : Option Opcode :=
  (code[pc]?.map Opcode.ofByte).filter fun op => pc + op.format.size ≤ code.length

/-- The line about the instruction at an offset. It does not depend on whether the operands can be read, and there
is none if bytes are missing or a payload block opens. -/
def decodingLines (code : List UInt8) (pc : Nat) : List (Level × String) :=
  match payloadAt code pc, wholeOpcodeAt? code pc with
  | .ok none, some op => [op.decodingLine ((code.drop pc).take op.format.size)]
  | _, _ => []

variable {code : List UInt8} {base : UInt32} {pool : ConstantPool} {pc : Nat}

theorem wholeOpcodeAt?_nil (suffix : code.drop pc = []) : wholeOpcodeAt? code pc = none := by
  have missing : code[pc]? = none := by
    rw [← List.head?_drop, suffix]
    rfl
  rw [wholeOpcodeAt?, missing]
  rfl

theorem wholeOpcodeAt?_cons {first : UInt8} {rest : List UInt8} (suffix : code.drop pc = first :: rest) :
    wholeOpcodeAt? code pc =
      if rest.length + 1 < (Opcode.ofByte first).format.size then none else some (.ofByte first) := by
  have present : code[pc]? = some first := by
    rw [← List.head?_drop, suffix]
    rfl
  have whole := congrArg List.length suffix
  rw [List.length_drop, List.length_cons] at whole
  rw [wholeOpcodeAt?, present, Option.map_some, Option.filter_some]
  by_cases short : rest.length + 1 < (Opcode.ofByte first).format.size
  · have missing : ¬ pc + (Opcode.ofByte first).format.size ≤ code.length := by omega
    rw [if_pos short, decide_eq_false missing]
    rfl
  · have fits : pc + (Opcode.ofByte first).format.size ≤ code.length := by omega
    rw [if_neg short, decide_eq_true fits]
    rfl

/-- The bytes of an instruction are logged before its operands are read. -/
theorem instructionAt_log (code : List UInt8) (pc : Nat) (base : UInt32) (pool : ConstantPool) :
    (instructionAt code pc base pool).log =
      match wholeOpcodeAt? code pc with
      | some op => [.decoding op.mnemonic op.format ((code.drop pc).take op.format.size)]
      | none => [] := by
  unfold instructionAt
  cases suffix : code.drop pc with
  | nil => rw [wholeOpcodeAt?_nil suffix]
  | cons first rest =>
    rw [wholeOpcodeAt?_cons suffix]
    by_cases short : rest.length + 1 < (Opcode.ofByte first).format.size
    · have all : (first :: rest).take (Opcode.ofByte first).format.size = first :: rest :=
        List.take_of_length_le (Nat.le_of_lt short)
      simp only [instructionFrom, all, List.length_cons, if_pos short]
    · have full : ((first :: rest).take (Opcode.ofByte first).format.size).length =
          (Opcode.ofByte first).format.size :=
        List.length_take_of_le (Nat.not_lt.mp short)
      simp only [instructionFrom, if_neg short, full, Nat.lt_irrefl, if_false, Opcode.tracedOperands,
        List.take_take, Nat.min_self]
      cases (Opcode.ofByte first).operands ((first :: rest).take (Opcode.ofByte first).format.size) base pool <;>
        rfl

theorem itemAt_log_plain (plain : payloadAt code pc = .ok none) :
    (itemAt code pc base pool).log.map Event.line = decodingLines code pc := by
  rw [itemAt_eq_match, plain, decodingLines, plain, instructionAt_log]
  cases wholeOpcodeAt? code pc <;> rfl

theorem itemAt_log_error {e : DecodeError} (failed : (itemAt code pc base pool).value = .error e) :
    (itemAt code pc base pool).log.map Event.line = decodingLines code pc := by
  rcases block : payloadAt code pc with fault | (_ | ⟨kind, length⟩)
  · rw [itemAt_eq_match, block, decodingLines, block]
    rfl
  · exact itemAt_log_plain block
  · rw [itemAt_payload base pool block] at failed
    cases failed

/-- An item that was decoded is logged in one line. -/
theorem itemAt_log_ok {item : Item} (found : (itemAt code pc base pool).value = .ok item) :
    (itemAt code pc base pool).log.map Event.line = [item.logLine code] := by
  rcases itemAt_ok_cases found with ⟨kind, length, block, rfl⟩ | ⟨first, rest, operands, suffix, plain, full, rfl⟩
  · rw [itemAt_payload base pool block]
    rfl
  · have noBlock : payloadAt code pc = .ok none := by
      rw [payloadAt, suffix]
      exact plain.scanPayload
    rw [itemAt_log_plain noBlock, decodingLines, noBlock, wholeOpcodeAt?_cons suffix, if_neg (Nat.not_lt.mpr full)]
    rfl

theorem Walk.logOf_lines {stop : Nat} {items : List Item} (walk : Walk code base pool pc items stop) :
    (logOf code base pool items).map Event.line = items.map (Item.logLine code) := by
  induction walk with
  | stop => rfl
  | @next pc stop item items found _ ih =>
    obtain ⟨start, _⟩ := itemAt_bounds found
    have here := itemAt_log_ok found
    simp only [logOf] at ih ⊢
    rw [List.flatMap_cons, List.map_append, ih, start, here]
    rfl

/-- The lines about items are no warnings. -/
theorem Item.logLine_level (code : List UInt8) (item : Item) : (item.logLine code).1 ≠ .warn := by
  cases item with
  | instruction i => exact show Level.trace ≠ .warn by decide
  | payload span => exact show Level.debug ≠ .warn by decide

theorem decodingLines_level (code : List UInt8) (pc : Nat) : ∀ line ∈ decodingLines code pc, line.1 ≠ .warn := by
  intro line member
  unfold decodingLines at member
  split at member
  · rw [List.mem_singleton.mp member]
    exact show Level.trace ≠ .warn by decide
  · cases member

/-- Of lines of which the last is a warning and the others are not, one is a warning. -/
theorem countP_warn {log : List Event} {lines : List (Level × String)} {last : Level × String}
    (same : log.map Event.line = lines ++ [last]) (others : ∀ line ∈ lines, line.1 ≠ .warn)
    (warns : last.1 = .warn) :
    log.countP (·.level = .warn) = 1 := by
  have moved : log.countP (·.level = .warn) = (log.map Event.line).countP fun line => line.1 = .warn := by
    rw [List.countP_map]
    rfl
  have none : lines.countP (fun line => line.1 = .warn) = 0 := by
    simpa [List.countP_eq_zero] using others
  rw [moved, same, List.countP_append, none]
  simp [warns]

/-- The log follows the decoding. For a method that decodes it has one line for each item, in the order in which
these stand, and no warning. For one that does not, it has the lines of the items before the fault, a line about
the instruction at fault if that is an instruction with all its bytes, and at last one warning with the base and
the error. -/
theorem disassemble_log (code : List UInt8) (base : UInt32) (pool : ConstantPool) :
    (∀ d, (disassemble code base pool).value = .ok d →
      (disassemble code base pool).log.map Event.line = d.items.map (Item.logLine code) ∧
      d.items.Perm (d.instructions.map .instruction ++ d.payloads.map .payload) ∧
      d.items.Pairwise (fun item later => item.start < later.start) ∧
      ∀ event ∈ (disassemble code base pool).log, event.level ≠ .warn) ∧
    ∀ e, (disassemble code base pool).value = .error e →
      (disassemble code base pool).log.countP (·.level = .warn) = 1 ∧
      ((code.length % 2 = 1 ∧ (disassemble code base pool).log.map Event.line = [e.abortingLine base]) ∨
        ∃ pc d, FirstFault code base pool pc e ∧ (disassemble (code.take pc) base pool).value = .ok d ∧
          (disassemble code base pool).log.map Event.line =
            d.items.map (Item.logLine code) ++ decodingLines code pc ++ [e.abortingLine base]) := by
  constructor
  · intro d run
    obtain ⟨items, walk, rfl⟩ := disassemble_ok_iff.mp run
    have lines := walk.logOf_lines
    rw [walk.disassemble_eq_ok, walk.items_ofItems]
    refine ⟨lines, ?_, walk.starts_ascending, fun event member => ?_⟩
    · exact walk.parts_ofItems_perm.symm
    · have isLine : event.line ∈ items.map (Item.logLine code) := by
        rw [← lines]
        exact List.mem_map_of_mem member
      obtain ⟨item, _, same⟩ := List.mem_map.mp isLine
      have notWarn := item.logLine_level code
      rw [same] at notWarn
      exact notWarn
  · intro e run
    by_cases odd : code.length % 2 = 1
    · rw [disassemble_odd base pool odd] at run
      cases run
      rw [disassemble_eq_odd base pool odd]
      exact ⟨rfl, Or.inl ⟨odd, rfl⟩⟩
    · have even : code.length % 2 = 0 := by omega
      obtain ⟨items, pc, walk, inside, failed⟩ := (disassemble_error_iff even).mp run
      have before := (disassemble_take_ok_iff (Nat.le_of_lt inside)).mpr ⟨items, walk, rfl⟩
      have lines : (disassemble code base pool).log.map Event.line =
          items.map (Item.logLine code) ++ decodingLines code pc ++ [e.abortingLine base] := by
        rw [walk.disassemble_eq_error even inside failed, List.map_append, List.map_append, walk.logOf_lines,
          itemAt_log_error failed]
        rfl
      refine ⟨countP_warn lines ?_ rfl, Or.inr ⟨pc, _, walk.firstFault inside failed, before, ?_⟩⟩
      · intro line member
        rcases List.mem_append.mp member with ofItem | ofFault
        · obtain ⟨item, _, rfl⟩ := List.mem_map.mp ofItem
          exact item.logLine_level code
        · exact decodingLines_level code pc line ofFault
      · rw [walk.items_ofItems]
        exact lines

/-- A method that decodes, and one that goes on with a call of too many arguments. -/
theorem disassemble_log_call :
    let method : List UInt8 := [0x12, 0x10, 0, 1, 0, 0, 0, 0, 0, 0]
    let call : List UInt8 := [0x6e, 0x60, 0, 0, 0, 0]
    let lines : List (Level × String) :=
      [(.trace, "decoding const/4 (11n) from [12, 10]"),
        (.debug, "[decode] skipping packed-switch-payload of 8 bytes at 0x2")]
    (disassemble method 16 .placeholder).log.map Event.line = lines ∧
    (disassemble (method ++ call) 16 .placeholder).log.map Event.line = lines ++
      [(.trace, "decoding invoke-virtual (35c) from [6e, 60, 00, 00, 00, 00]"),
        (.warn, "[decode] aborting method decode at base 0x10: " ++
          "invoke-virtual argument count 6 exceeds 5 for invoke-virtual at 0xa")] := by
  intro method call lines
  let items : List Item :=
    [.instruction ⟨0, .ofByte 0x12, [.register 0, .literal 1]⟩, .payload ⟨2, 8, .packedSwitch⟩]
  have walk : Walk method 16 .placeholder 0 items 10 := .next rfl (.next rfl .stop)
  have longer : Walk (method ++ call) 16 .placeholder 0 items 10 := walk.congr rfl
  have failed : (itemAt (method ++ call) 10 16 .placeholder).value =
      .error ⟨.tooManyArguments "invoke-virtual" 6, [.instruction "invoke-virtual" 10]⟩ := rfl
  have texts : items.map (Item.logLine method) = lines := by
    decide +kernel
  constructor
  · obtain ⟨logged, _⟩ := (disassemble_log method 16 .placeholder).1 _ walk.disassemble_ok
    rw [logged, walk.items_ofItems, texts]
  · have run := longer.disassemble_error (by decide) (by decide) failed
    obtain ⟨_, ⟨odd, _⟩ | ⟨pc, d, fault, before, logged⟩⟩ :=
      (disassemble_log (method ++ call) 16 .placeholder).2 _ run
    · exact absurd odd (by decide)
    · obtain rfl := fault.offset_unique (longer.firstFault (by decide) failed)
      obtain rfl : Disassembly.ofItems items = d := by
        have same := (disassemble_take_ok_iff (by decide)).mpr ⟨items, longer, rfl⟩
        rw [before] at same
        cases same
        rfl
      rw [logged, longer.items_ofItems, show items.map (Item.logLine (method ++ call)) = lines from texts]
      decide +kernel

end Dalvik
