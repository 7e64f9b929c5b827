import Dalvik.Proofs.CheckedDecoding
import Mathlib.Data.List.Chain

namespace Dalvik

open Checked

namespace Disassembly

/-- Enters an item behind those that are there. -/
def push (d : Disassembly) : Item → Disassembly
  | .instruction i => { d with instructions := d.instructions ++ [i] }
  | .payload span => { d with payloadMap := d.payloadMap.insert span.interval }

theorem ofItems_concat (items : List Item) (item : Item) :
    ofItems (items ++ [item]) = (ofItems items).push item := by
  simp only [ofItems, List.filterMap_append, List.foldl_append]
  cases item with
  | instruction i => rfl
  | payload span => exact congrArg (Disassembly.mk · _) (List.append_nil _)

end Disassembly

/-- Where the loop over a method's code stands: the cursor and all its values so far, the items that were passed,
and what was logged. -/
structure Progress where
  pc : Nat := 0
  cursors : List Nat := [0]
  found : Disassembly := {}
  log : List Event := []

namespace Progress

/-- The cursor goes behind an item. -/
def pass (s : Progress) (item : Item) (events : List Event) : Progress where
  pc := s.pc + item.size
  cursors := s.cursors ++ [s.pc + item.size]
  found := s.found.push item
  log := s.log ++ events

section Loop

variable (code : List UInt8) (base : UInt32) (pool : ConstantPool)

/-- One turn of the loop. It gives an error too if the item at the cursor fails. -/
def turn (s : Progress) : Checked (Progress × Option DecodeError) := do
  match ← checkedPayloadAt code s.pc with
  | .error fault => return (s, some ⟨fault, [.payload s.pc]⟩)
  | .ok (some (kind, length)) =>
    let stop ← index (s.pc + length)
    let payloadMap ← insert s.found.payloadMap ⟨s.pc, stop, (s.pc, kind)⟩
    return (⟨stop, s.cursors ++ [stop], { s.found with payloadMap }, s.log ++ [.skipping kind length s.pc]⟩, none)
  | .ok none =>
    match ← checkedInstructionAt code s.pc base pool with
    | ⟨.error e, events⟩ => return ({ s with log := s.log ++ events }, some e)
    | ⟨.ok i, events⟩ =>
      let stop ← index (s.pc + i.size)
      let instructions := s.found.instructions ++ [i]
      return (⟨stop, s.cursors ++ [stop], { s.found with instructions }, s.log ++ events⟩, none)

/-- Turn after turn while the cursor is before the end of the code, up to a number of turns. -/
def run : (turns : Nat) → Progress → Checked (Progress × Option DecodeError)
  | 0, s => if s.pc < code.length then .error .turnsUsedUp else .ok (s, none)
  | turns + 1, s =>
    if s.pc < code.length then do
      match ← turn code base pool s with
      | (s', none) => run turns s'
      | (s', some e) => return (s', some e)
    else .ok (s, none)

end Loop

end Progress

/-- As `disassemble`, with all arithmetic and slices checked, in a number of turns. Gives the values of the cursor
too. -/
def checkedDisassemble (code : List UInt8) (base : UInt32) (pool : ConstantPool) (turns : Nat) :
    Checked (Logged (Except DecodeError Disassembly) × List Nat) :=
  if code.length % 2 = 1 then
    let e : DecodeError := ⟨.oddLength code.length, []⟩
    .ok (⟨.error e, [.aborting base e]⟩, [])
  else do
    match ← Progress.run code base pool turns {} with
    | (s, none) => return (⟨.ok s.found, s.log⟩, s.cursors)
    | (s, some e) => return (⟨.error e, s.log ++ [.aborting base e]⟩, s.cursors)

variable {code : List UInt8} {base : UInt32} {pool : ConstantPool}

/-- A turn passes the item at the cursor, and nothing in it traps. -/
theorem Progress.turn_eq (short : code.length < 2 ^ 63) (s : Progress) :
    turn code base pool s = .ok (match itemAt code s.pc base pool with
      | ⟨.ok item, events⟩ => (s.pass item events, none)
      | ⟨.error e, events⟩ => ({ s with log := s.log ++ events }, some e)) := by
  have bounds {item : Item} (found : (itemAt code s.pc base pool).value = .ok item) :
      0 < item.size ∧ s.pc + item.size < 2 ^ 63 := by
    obtain ⟨_, positive, _, inside⟩ := itemAt_bounds found
    omega
  rw [turn, checkedPayloadAt_eq short, ok_bind]
  rw [itemAt_eq_match] at bounds ⊢
  cases payload : payloadAt code s.pc with
  | error fault =>
    dsimp only
    rw [List.append_nil]
    rfl
  | ok block =>
    rw [payload] at bounds
    cases block with
    | some block =>
      obtain ⟨kind, length⟩ := block
      obtain ⟨positive, inside⟩ := bounds rfl
      dsimp only [Item.size] at positive inside ⊢
      rw [index_eq inside, ok_bind, insert_eq _ (by dsimp only; omega), ok_bind]
      rfl
    | none =>
      dsimp only at bounds ⊢
      rw [checkedInstructionAt_eq short, ok_bind]
      rcases decoded : instructionAt code s.pc base pool with ⟨_ | i, events⟩
      · rfl
      · rw [decoded] at bounds
        have inside : s.pc + i.size < 2 ^ 63 := (bounds rfl).2
        dsimp only
        rw [index_eq inside, ok_bind]
        rfl

namespace Walk

variable {pc stop : Nat} {items : List Item}

/-- Every item takes a code unit at least. -/
theorem two_mul_length_le (walk : Walk code base pool pc items stop) : pc + 2 * items.length ≤ stop := by
  induction walk with
  | stop => exact Nat.le_refl _
  | next found _ ih =>
    obtain ⟨_, positive, _, _⟩ := itemAt_bounds found
    rw [List.length_cons]
    omega

end Walk

/-- Every item is an instruction or a block. -/
theorem Item.length_parts (items : List Item) :
    (items.filterMap Item.instruction?).length + (items.filterMap Item.payload?).length = items.length := by
  induction items with
  | nil => rfl
  | cons item items ih =>
    cases item with
    | instruction i =>
      have own : (Item.instruction i :: items).filterMap instruction? = i :: items.filterMap instruction? := rfl
      have other : (Item.instruction i :: items).filterMap payload? = items.filterMap payload? := rfl
      rw [own, other, List.length_cons, List.length_cons]
      omega
    | payload span =>
      have own : (Item.payload span :: items).filterMap payload? = span :: items.filterMap payload? := rfl
      have other : (Item.payload span :: items).filterMap instruction? = items.filterMap instruction? := rfl
      rw [own, other, List.length_cons, List.length_cons]
      omega

/-- The loop has passed these items. Its cursor started at zero, went up by two at least in each turn, and stayed
even and inside the code. -/
structure Progress.Reached (code : List UInt8) (base : UInt32) (pool : ConstantPool) (items : List Item)
    (s : Progress) : Prop where
  walk : Walk code base pool 0 items s.pc
  found : s.found = .ofItems items
  log : s.log = logOf code base pool items
  starts : s.cursors.head? = some 0
  ends : s.cursors.getLast? = some s.pc
  rises : s.cursors.IsChain fun a b => a + 2 ≤ b
  inside : ∀ cursor ∈ s.cursors, cursor % 2 = 0 ∧ cursor ≤ code.length
  count : s.cursors.length = items.length + 1

namespace Progress.Reached

theorem start : Reached code base pool [] {} where
  walk := .stop
  found := rfl
  log := rfl
  starts := rfl
  ends := rfl
  rises := .singleton 0
  inside := by simp
  count := rfl

theorem pc_inside {s : Progress} {items : List Item} (reached : Reached code base pool items s) :
    s.pc % 2 = 0 ∧ s.pc ≤ code.length := reached.inside s.pc (List.mem_of_getLast? reached.ends)

/-- One turn keeps the invariant. -/
theorem pass {s : Progress} {items : List Item} {item : Item} (reached : Reached code base pool items s)
    (decoded : (itemAt code s.pc base pool).value = .ok item) :
    Reached code base pool (items ++ [item]) (s.pass item (itemAt code s.pc base pool).log) := by
  obtain ⟨start, positive, even, inside⟩ := itemAt_bounds decoded
  refine ⟨reached.walk.append (.next decoded .stop), ?_, ?_, ?_, ?_, ?_, ?_, ?_⟩
  · rw [Disassembly.ofItems_concat, ← reached.found]
    rfl
  · simp [Progress.pass, logOf, reached.log, start]
  · rw [Progress.pass, List.head?_append, reached.starts]
    rfl
  · exact List.getLast?_concat
  · refine List.isChain_append.mpr ⟨reached.rises, .singleton _, ?_⟩
    intro last isLast next isNext
    rw [reached.ends] at isLast
    cases isLast
    cases isNext
    omega
  · intro cursor member
    rcases List.mem_append.mp member with earlier | own
    · exact reached.inside cursor earlier
    · obtain rfl := List.mem_singleton.mp own
      have pcEven := reached.pc_inside.1
      exact ⟨by omega, inside⟩
  · simp [Progress.pass, reached.count]

end Progress.Reached

/-- Turns that are enough for the rest of the code lead to its end, or to the first item that fails. -/
theorem Progress.run_reached (short : code.length < 2 ^ 63) {s : Progress} {items : List Item}
    (reached : Reached code base pool items s) {turns : Nat} (enough : code.length ≤ s.pc + 2 * turns) :
    ∃ items s', Reached code base pool items s' ∧
      ((s'.pc = code.length ∧ run code base pool turns s = .ok (s', none)) ∨
        ∃ e, s'.pc < code.length ∧ (itemAt code s'.pc base pool).value = .error e ∧
          run code base pool turns s =
            .ok ({ s' with log := s'.log ++ (itemAt code s'.pc base pool).log }, some e)) := by
  have before := reached.pc_inside.2
  -- Each turn takes two bytes at least, so that the turns left are enough for the bytes left.
  induction turns generalizing s items with
  | zero =>
    have atEnd : s.pc = code.length := by omega
    exact ⟨items, s, reached, Or.inl ⟨atEnd, if_neg (by omega)⟩⟩
  | succ turns ih =>
    by_cases going : s.pc < code.length
    · rw [run, if_pos going, turn_eq short, ok_bind]
      rcases decoded : itemAt code s.pc base pool with ⟨e | item, events⟩
      · refine ⟨items, s, reached, Or.inr ⟨e, going, ?_, ?_⟩⟩
        · rw [decoded]
        · rw [decoded]
          rfl
      · have found : (itemAt code s.pc base pool).value = .ok item := by rw [decoded]
        obtain ⟨_, positive, _, inside⟩ := itemAt_bounds found
        have next := reached.pass found
        rw [decoded] at next
        exact ih next (by dsimp only [Progress.pass]; omega) inside
    · exact ⟨items, s, reached, Or.inl ⟨by omega, by rw [run, if_neg going]⟩⟩

open Progress

theorem checkedDisassemble_reached (base : UInt32) (pool : ConstantPool) (short : code.length < 2 ^ 63)
    (even : code.length % 2 = 0) {turns : Nat} (enough : code.length / 2 ≤ turns) :
    ∃ items s, Reached code base pool items s ∧
      checkedDisassemble code base pool turns = .ok (disassemble code base pool, s.cursors) ∧
      ∀ d, (disassemble code base pool).value = .ok d → d = .ofItems items := by
  have start : Reached code base pool [] {} := .start
  obtain ⟨items, s, reached, ending⟩ := run_reached short start (show code.length ≤ 0 + 2 * turns by omega)
  refine ⟨items, s, reached, ?_⟩
  rw [checkedDisassemble, if_neg (by omega)]
  rcases ending with ⟨atEnd, finished⟩ | ⟨e, before, failed, finished⟩
  · have walk := reached.walk
    rw [atEnd] at walk
    rw [finished, walk.disassemble_eq_ok, ← reached.found, ← reached.log]
    exact ⟨rfl, fun d run => (Except.ok.inj run).symm⟩
  · rw [finished, reached.walk.disassemble_eq_error even before failed, ← reached.log]
    exact ⟨rfl, fun d run => by cases run⟩

/-- Decoding ends and nothing in it traps. Half as many turns as there are bytes are enough; the arithmetic stays
in range, the slices in bounds and the intervals not empty, so that the checked loop gives what decoding gives.
The cursor starts at zero, stays even and inside the code, and goes up by two at least in each turn, so that there
is at most one instruction or block for two bytes. -/
theorem checkedDisassemble_eq (base : UInt32) (pool : ConstantPool) {code : List UInt8}
    (short : code.length < 2 ^ 63) {turns : Nat} (enough : code.length / 2 ≤ turns) :
    ∃ cursors, checkedDisassemble code base pool turns = .ok (disassemble code base pool, cursors) ∧
      (code.length % 2 = 0 → cursors.head? = some 0) ∧
      (∀ cursor ∈ cursors, cursor % 2 = 0 ∧ cursor ≤ code.length) ∧
      cursors.IsChain (fun cursor next => cursor + 2 ≤ next) ∧
      ∀ d, (disassemble code base pool).value = .ok d →
        cursors.length = d.instructions.length + d.payloads.length + 1 ∧
        d.instructions.length + d.payloads.length ≤ code.length / 2 := by
  by_cases odd : code.length % 2 = 1
  · refine ⟨[], ?_, by omega, by simp, .nil, fun d run => ?_⟩
    · rw [checkedDisassemble, if_pos odd, disassemble_eq_odd base pool odd]
    · rw [disassemble_odd base pool odd] at run
      cases run
  · obtain ⟨items, s, reached, same, result⟩ := checkedDisassemble_reached base pool short (by omega) enough
    refine ⟨s.cursors, same, fun _ => reached.starts, reached.inside, reached.rises, fun d run => ?_⟩
    obtain rfl := result d run
    have inside := reached.pc_inside.2
    have units := reached.walk.two_mul_length_le
    have parts := Item.length_parts items
    rw [reached.walk.payloads_ofItems, reached.count]
    dsimp only [Disassembly.ofItems]
    omega

/-- Array data of 4294967295 elements that take no bytes, and a return. -/
theorem checkedDisassemble_eq_empty_array :
    let code : List UInt8 := [0, 3, 0, 0, 0xff, 0xff, 0xff, 0xff, 0x0e, 0]
    code.length < 2 ^ 63 ∧
    (checkedDisassemble code 0 .placeholder 5).map (·.1) = .ok (disassemble code 0 .placeholder) ∧
    (checkedDisassemble code 0 .placeholder 5).map (·.2) = .ok [0, 8, 10] := by
  obtain ⟨cursors, run, _⟩ := checkedDisassemble_eq 0 .placeholder
    (show [0, 3, 0, 0, 0xff, 0xff, 0xff, 0xff, 0x0e, (0 : UInt8)].length < 2 ^ 63 by decide) (Nat.le_refl 5)
  refine ⟨by decide, ?_, by rfl⟩
  rw [run]
  rfl

-- Fewer turns are not enough where every item is one code unit.
example : (checkedDisassemble [0, 0, 0x0e, 0] 0 .placeholder 1).map (·.2) = .error .turnsUsedUp := by rfl

end Dalvik
