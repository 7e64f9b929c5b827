import Dalvik.Proofs.FirstFault
import Dalvik.Proofs.TwoRuns

namespace Dalvik

/-- A pool entry that an instruction refers to. -/
structure PoolUse where
  offset : Nat
  mnemonic : String
  kind : ReferenceKind
  index : UInt32
  deriving DecidableEq, Repr

namespace PoolUse

def ResolvedBy (pool : ConstantPool) (use : PoolUse) : Prop := (pool.lookup use.kind use.index).isSome

instance (pool : ConstantPool) (use : PoolUse) : Decidable (use.ResolvedBy pool) :=
  inferInstanceAs (Decidable (_ = true))

/-- The error of an entry that is not there: it names the entry, and the instruction that refers to it. -/
def error (use : PoolUse) : DecodeError :=
  ⟨.unresolvedIndex use.kind use.index, [.instruction use.mnemonic use.offset]⟩

end PoolUse

namespace Operand

/-- The table and the index of a reference. -/
def poolIndex? : Operand → Option (ReferenceKind × UInt32)
  | reference kind index _ => some (kind, index)
  | _ => none

/-- The operand under the name that the pool has for it. -/
def named (pool : ConstantPool) : Operand → Operand
  | reference kind index name => reference kind index ((pool.lookup kind index).getD name)
  | operand => operand

/-- The operand under the name that the pool has to have for it. -/
def supply (pool : ConstantPool) : Operand → Except Fault Operand
  | reference kind index _ =>
    match pool.lookup kind index with
    | some name => .ok (reference kind index name)
    | none => .error (.unresolvedIndex kind index)
  | operand => .ok operand

end Operand

namespace Instruction

def poolUses (i : Instruction) : List PoolUse :=
  (i.operands.filterMap Operand.poolIndex?).map fun entry => ⟨i.offset, i.mnemonic, entry.1, entry.2⟩

def named (pool : ConstantPool) (i : Instruction) : Instruction :=
  { i with operands := i.operands.map (Operand.named pool) }

theorem opcode_named (pool : ConstantPool) (i : Instruction) : (i.named pool).opcode = i.opcode := rfl

end Instruction

namespace Disassembly

/-- The pool entries that a method refers to, in program order. -/
def poolUses (d : Disassembly) : List PoolUse := d.instructions.flatMap Instruction.poolUses

def firstUnresolved? (pool : ConstantPool) (d : Disassembly) : Option PoolUse :=
  d.poolUses.find? fun use => ¬ use.ResolvedBy pool

/-- The same code with the names of the pool. -/
def named (pool : ConstantPool) (d : Disassembly) : Disassembly :=
  { d with instructions := d.instructions.map (Instruction.named pool) }

end Disassembly

theorem ConstantPool.lookup_placeholder {kind : ReferenceKind} (isTable : kind ≠ .none) (index : UInt32) :
    placeholder.lookup kind index = some (placeholderName kind index) := by
  cases kind with
  | none => exact absurd rfl isTable
  | string | type | field | method => rfl

/-- Decoding without tables and with a pool. -/
def supplied (base : UInt32) (pool : ConstantPool) : Revision base base .placeholder pool where
  revise := Operand.supply pool
  register _ := rfl
  literal _ := rfl
  high _ _ := rfl
  target _ := rfl
  farTarget _ := rfl
  resolve kind index := by
    unfold ConstantPool.resolve
    split
    · rfl
    · rename_i isTable
      rw [ConstantPool.lookup_placeholder isTable]
      rfl

/-- No name stands in the pool for the table and the index. -/
def ConstantPool.lacks (pool : ConstantPool) (entry : ReferenceKind × UInt32) : Bool :=
  (pool.lookup entry.1 entry.2).isNone

/-- The first entry that is not there decides. -/
theorem Operand.mapM_supply (pool : ConstantPool) (operands : List Operand) :
    operands.mapM (supply pool) =
      match (operands.filterMap poolIndex?).find? pool.lacks with
      | some entry => .error (.unresolvedIndex entry.1 entry.2)
      | none => .ok (operands.map (named pool)) := by
  induction operands with
  | nil => rfl
  | cons operand operands ih =>
    rw [List.mapM_cons, ih]
    cases operand with
    | reference kind index name =>
      cases found : pool.lookup kind index with
      | none =>
        simp only [supply, poolIndex?, found, List.filterMap_cons, List.find?_cons, ConstantPool.lacks,
          Option.isNone_none]
        rfl
      | some entry =>
        simp only [supply, poolIndex?, named, found, List.filterMap_cons, List.find?_cons, ConstantPool.lacks,
          Option.isNone_some, List.map_cons, Option.getD_some]
        cases (operands.filterMap poolIndex?).find? pool.lacks <;> rfl
    | register | literal | high | target | farTarget =>
      simp only [supply, poolIndex?, named, List.filterMap_cons, List.map_cons]
      cases (operands.filterMap poolIndex?).find? pool.lacks <;> rfl

def Item.poolUses : Item → List PoolUse
  | instruction i => i.poolUses
  | payload _ => []

theorem Disassembly.poolUses_ofItems (items : List Item) :
    (ofItems items).poolUses = items.flatMap Item.poolUses := by
  induction items with
  | nil => rfl
  | cons item items ih =>
    cases item with
    | instruction i => exact congrArg (i.poolUses ++ ·) ih
    | payload span => exact ih

/-- A pool gives the names of an item, or fails at the first entry that it does not have. -/
theorem supplied_item (base : UInt32) (pool : ConstantPool) (item : Item) :
    (supplied base pool).item item =
      match item.poolUses.find? fun use => ¬ use.ResolvedBy pool with
      | some use => .error use.error
      | none => .ok (item.mapInstruction (Instruction.named pool)) := by
  cases item with
  | payload span => rfl
  | instruction i =>
    have operands := Operand.mapM_supply pool i.operands
    have revised : i.operands.mapM (supplied base pool).revise = i.operands.mapM (Operand.supply pool) := rfl
    rw [Revision.item, Revision.instruction, revised, operands, Item.poolUses, Instruction.poolUses, List.find?_map]
    have same : ((fun use => decide ¬ use.ResolvedBy pool) ∘
        fun entry => (⟨i.offset, i.mnemonic, entry.1, entry.2⟩ : PoolUse)) = pool.lacks := by
      funext entry
      cases found : pool.lookup entry.1 entry.2 <;> simp [PoolUse.ResolvedBy, ConstantPool.lacks, found]
    rw [same]
    cases (i.operands.filterMap Operand.poolIndex?).find? pool.lacks <;> rfl

theorem Item.offset_of_mem_poolUses {item : Item} {use : PoolUse} (member : use ∈ item.poolUses) :
    use.offset = item.start := by
  cases item with
  | instruction i =>
    obtain ⟨entry, _, rfl⟩ := List.mem_map.mp member
    rfl
  | payload span => cases member

namespace Walk

variable {code : List UInt8} {base : UInt32} {pool : ConstantPool} {pc stop : Nat} {items : List Item}

/-- With a pool that has all entries the walk is the same, under the names of the pool. -/
theorem named (walk : Walk code base .placeholder pc items stop)
    (resolved : ∀ use ∈ items.flatMap Item.poolUses, use.ResolvedBy pool) :
    Walk code base pool pc (items.map (Item.mapInstruction (Instruction.named pool))) stop := by
  refine (supplied base pool).walk walk (Instruction.opcode_named pool) fun item member => ?_
  have none : item.poolUses.find? (fun use => ¬ use.ResolvedBy pool) = none := by
    refine List.find?_eq_none.mpr fun use isUse => ?_
    simpa using resolved use (List.mem_flatMap.mpr ⟨item, member, isUse⟩)
  rw [supplied_item, none]

/-- Without one of the entries the walk ends at the first instruction that refers to a missing one. -/
theorem unresolved {use : PoolUse} (walk : Walk code base .placeholder pc items stop)
    (first : (items.flatMap Item.poolUses).find? (fun use => ¬ use.ResolvedBy pool) = some use) :
    ∃ before, Walk code base pool pc before use.offset ∧ use.offset < stop ∧
      (itemAt code use.offset base pool).value = .error use.error := by
  induction walk with
  | stop => cases first
  | @next pc stop item items found rest ih =>
    obtain ⟨start, positive, _, _⟩ := itemAt_bounds found
    have bound := rest.le_stop
    have decoded := (supplied base pool).itemAt_ok found
    rw [supplied_item] at decoded
    rw [List.flatMap_cons, List.find?_append] at first
    cases here : item.poolUses.find? (fun use => ¬ use.ResolvedBy pool) with
    | some use' =>
      rw [here] at first decoded
      cases first
      have offset := Item.offset_of_mem_poolUses (List.mem_of_find?_eq_some here)
      rw [offset, start]
      exact ⟨[], .stop, by omega, decoded⟩
    | none =>
      rw [here] at first decoded
      obtain ⟨before, walk, inside, failed⟩ := ih first
      refine ⟨_ :: before, .next decoded ?_, inside, failed⟩
      rwa [Item.size_mapInstruction (Instruction.opcode_named pool)]

end Walk

variable {code : List UInt8} {base : UInt32} {pool : ConstantPool} {stop : Nat} {items : List Item}

theorem disassemble_unresolved {use : PoolUse} (walk : Walk code base .placeholder 0 items stop)
    (even : code.length % 2 = 0) (inside : stop ≤ code.length)
    (first : (Disassembly.ofItems items).firstUnresolved? pool = some use) :
    use.offset < stop ∧ (disassemble code base pool).value = .error use.error := by
  rw [Disassembly.firstUnresolved?, Disassembly.poolUses_ofItems] at first
  obtain ⟨before, walk, within, failed⟩ := walk.unresolved first
  exact ⟨within, walk.disassemble_error even (by omega) failed⟩

theorem disassemble_named (walk : Walk code base .placeholder 0 items code.length)
    (resolved : ∀ use ∈ (Disassembly.ofItems items).poolUses, use.ResolvedBy pool) :
    (disassemble code base pool).value = .ok ((Disassembly.ofItems items).named pool) := by
  rw [Disassembly.poolUses_ofItems] at resolved
  rw [(walk.named resolved).disassemble_ok, Disassembly.ofItems_mapInstruction]
  rfl

theorem Disassembly.exists_firstUnresolved {d : Disassembly} (missing : ¬ ∀ use ∈ d.poolUses, use.ResolvedBy pool) :
    ∃ use, d.firstUnresolved? pool = some use := by
  refine Option.isSome_iff_exists.mp (List.find?_isSome.mpr ?_)
  simpa using missing

/-- The pool only supplies names. Where code decodes without tables, it decodes with a pool exactly if the pool
has all entries that it refers to, and then to the same under the names of the pool; else the error is that of the
first entry that is missing. Where it does not decode without tables, it fails in the same way with every pool,
unless an entry is missing before that place. -/
theorem disassemble_pool_names (code : List UInt8) (base : UInt32) (pool : ConstantPool) :
    (∀ d, (disassembleWithoutTables code base).value = .ok d →
      ((∃ d', (disassemble code base pool).value = .ok d') ↔ ∀ use ∈ d.poolUses, use.ResolvedBy pool) ∧
      ((∀ use ∈ d.poolUses, use.ResolvedBy pool) → (disassemble code base pool).value = .ok (d.named pool)) ∧
      ((¬ ∀ use ∈ d.poolUses, use.ResolvedBy pool) →
        ∃ use, d.firstUnresolved? pool = some use ∧ (disassemble code base pool).value = .error use.error)) ∧
    (∀ e, (disassembleWithoutTables code base).value = .error e →
      (disassemble code base pool).value = .error e ∨
      ∃ stop d use, FirstFault code base .placeholder stop e ∧
        (disassembleWithoutTables (code.take stop) base).value = .ok d ∧ d.firstUnresolved? pool = some use ∧
        use.offset < stop ∧ (disassemble code base pool).value = .error use.error) ∧
    ∀ use : PoolUse, use.error.kind = .unresolvedPoolIndex ∧
      use.error.fault.message = use.kind.name ++ " index " ++ decimal use.index.toNat ++ " out of range" ∧
      use.error.contexts.map Context.text = [use.mnemonic ++ " at 0x" ++ hex use.offset] := by
  refine ⟨fun d run => ?_, fun e run => ?_, fun use => ⟨rfl, rfl, rfl⟩⟩
  · obtain ⟨items, walk, rfl⟩ := disassemble_ok_iff.mp run
    have unresolved : (¬ ∀ use ∈ (Disassembly.ofItems items).poolUses, use.ResolvedBy pool) →
        ∃ use, (Disassembly.ofItems items).firstUnresolved? pool = some use ∧
          (disassemble code base pool).value = .error use.error := by
      intro missing
      obtain ⟨use, first⟩ := Disassembly.exists_firstUnresolved missing
      exact ⟨use, first, (disassemble_unresolved walk (walk.stop_even rfl) (Nat.le_refl _) first).2⟩
    refine ⟨⟨fun ⟨d', run'⟩ => ?_, fun resolved => ⟨_, disassemble_named walk resolved⟩⟩, disassemble_named walk,
      unresolved⟩
    refine Classical.byContradiction fun missing => ?_
    obtain ⟨use, _, failed⟩ := unresolved missing
    rw [run'] at failed
    cases failed
  · by_cases odd : code.length % 2 = 1
    · rw [disassembleWithoutTables, disassemble_odd base .placeholder odd] at run
      cases run
      exact Or.inl (disassemble_odd base pool odd)
    · have even : code.length % 2 = 0 := by omega
      obtain ⟨items, stop, walk, inside, failed⟩ := (disassemble_error_iff even).mp run
      by_cases resolved : ∀ use ∈ (Disassembly.ofItems items).poolUses, use.ResolvedBy pool
      · rw [Disassembly.poolUses_ofItems] at resolved
        exact Or.inl
          ((walk.named resolved).disassemble_error even inside ((supplied base pool).itemAt_error failed))
      · obtain ⟨use, first⟩ := Disassembly.exists_firstUnresolved resolved
        have before := (disassemble_take_ok_iff (Nat.le_of_lt inside)).mpr ⟨items, walk, rfl⟩
        exact Or.inr ⟨stop, _, use, ⟨walk.stop_even rfl, inside, ⟨_, before⟩, itemAt_error_iff.mp failed⟩, before,
          first, disassemble_unresolved walk even (Nat.le_of_lt inside) first⟩

/-- A pool of one string: a method that loads it, one that loads a second one too, and one that is faulty behind
that. -/
theorem disassemble_pool_names_strings :
    let pool : ConstantPool :=
      ⟨fun index => if index = 0 then some "hello" else none, fun _ => none, fun _ => none, fun _ => none⟩
    let loadFirst : List UInt8 := [0x1a, 0, 0, 0]
    let loadSecond : List UInt8 := [0x1a, 1, 1, 0]
    let malformed : List UInt8 := [0x6e, 0x60, 0, 0, 0, 0]
    let missing : PoolUse := ⟨4, "const-string", .string, 1⟩
    (∃ d, (disassemble loadFirst 0 pool).value = .ok d ∧
      d.instructions = [⟨0, .ofByte 0x1a, [.register 0, .reference .string 0 "hello"]⟩]) ∧
    (disassemble (loadFirst ++ loadSecond) 0 pool).value = .error missing.error ∧
    ∃ e, (disassemble (loadFirst ++ loadSecond ++ malformed) 0 pool).value = .error e ∧
      (e = ⟨.tooManyArguments "invoke-virtual" 6, [.instruction "invoke-virtual" 8]⟩ ∨
        e.kind = .unresolvedPoolIndex) := by
  intro pool loadFirst loadSecond malformed missing
  let first : Item := .instruction
    ⟨0, .ofByte 0x1a, [.register 0, .reference .string 0 (ConstantPool.placeholderName .string 0)]⟩
  let second : Item := .instruction
    ⟨4, .ofByte 0x1a, [.register 1, .reference .string 1 (ConstantPool.placeholderName .string 1)]⟩
  have one : Walk loadFirst 0 .placeholder 0 [first] 4 := .next rfl .stop
  have two : Walk (loadFirst ++ loadSecond) 0 .placeholder 0 [first, second] 8 := .next rfl (.next rfl .stop)
  have faulty : (disassembleWithoutTables (loadFirst ++ loadSecond ++ malformed) 0).value =
      .error ⟨.tooManyArguments "invoke-virtual" 6, [.instruction "invoke-virtual" 8]⟩ := by
    have both : Walk (loadFirst ++ loadSecond ++ malformed) 0 .placeholder 0 _ 8 := two.congr rfl
    exact both.disassemble_error (by decide) (by decide) rfl
  obtain ⟨decoded, _, _⟩ := disassemble_pool_names loadFirst 0 pool
  obtain ⟨decoded', _, _⟩ := disassemble_pool_names (loadFirst ++ loadSecond) 0 pool
  obtain ⟨_, faults, texts⟩ := disassemble_pool_names (loadFirst ++ loadSecond ++ malformed) 0 pool
  refine ⟨⟨_, (decoded _ one.disassemble_ok).2.1 (by decide), rfl⟩, ?_, ?_⟩
  · obtain ⟨use, first, failed⟩ := (decoded' _ two.disassemble_ok).2.2 (by decide)
    cases first
    exact failed
  · rcases faults _ faulty with failed | ⟨_, _, use, _, _, _, _, failed⟩
    · exact ⟨_, failed, Or.inl rfl⟩
    · exact ⟨_, failed, Or.inr (texts use).1⟩

end Dalvik
