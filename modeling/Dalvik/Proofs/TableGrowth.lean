import Dalvik.Pool.Tables
import Dalvik.Proofs.PoolNames

namespace Dalvik

namespace ConstantPool

/-- What the first pool resolves, the second resolves to the same name. -/
def Extends (pool pool' : ConstantPool) : Prop :=
  ∀ kind index name, pool.lookup kind index = some name → pool'.lookup kind index = some name

end ConstantPool

section Extends

variable {code : List UInt8} {base : UInt32} {pool pool' : ConstantPool}

theorem Operand.supply_extends {operand operand' : Operand} (grown : pool.Extends pool')
    (named : operand.supply pool = .ok operand') : operand.supply pool' = .ok operand' := by
  cases operand with
  | reference kind index old =>
    rw [supply] at named ⊢
    cases found : pool.lookup kind index with
    | none =>
      rw [found] at named
      cases named
    | some name =>
      rw [found] at named
      rw [grown kind index name found]
      exact named
  | register | literal | high | target | farTarget => exact named

theorem Operand.mapM_supply_extends (grown : pool.Extends pool') {operands operands' : List Operand}
    (named : operands.mapM (supply pool) = .ok operands') : operands.mapM (supply pool') = .ok operands' := by
  induction operands generalizing operands' with
  | nil => exact named
  | cons operand operands ih =>
    rw [List.mapM_cons] at named ⊢
    cases first : operand.supply pool with
    | error fault =>
      rw [first] at named
      cases named
    | ok operand' =>
      cases later : operands.mapM (supply pool) with
      | error fault =>
        rw [first, later] at named
        cases named
      | ok rest =>
        rw [first, later] at named
        rw [supply_extends grown first, ih later]
        exact named

theorem supplied_item_extends (grown : pool.Extends pool') {item item' : Item}
    (named : (supplied base pool).item item = .ok item') : (supplied base pool').item item = .ok item' := by
  cases item with
  | payload span => exact named
  | instruction i =>
    rw [Revision.item, Revision.instruction] at named ⊢
    cases operands : i.operands.mapM (supplied base pool).revise with
    | error fault =>
      rw [operands] at named
      cases named
    | ok operands' =>
      rw [operands] at named
      rw [show i.operands.mapM (supplied base pool').revise = .ok operands' from
        Operand.mapM_supply_extends grown operands]
      exact named

/-- An item is decoded without tables first, and the names are looked up in what that gives. -/
theorem itemAt_extends {pc : Nat} {item : Item} (grown : pool.Extends pool')
    (found : (itemAt code pc base pool).value = .ok item) : (itemAt code pc base pool').value = .ok item := by
  rw [(supplied base pool).itemAt_eq] at found
  rw [(supplied base pool').itemAt_eq]
  cases unnamed : (itemAt code pc base .placeholder).value with
  | error e =>
    rw [unnamed] at found
    cases found
  | ok item' =>
    rw [unnamed] at found
    exact supplied_item_extends grown found

theorem Walk.extends {pc stop : Nat} {items : List Item} (walk : Walk code base pool pc items stop)
    (grown : pool.Extends pool') : Walk code base pool' pc items stop := by
  induction walk with
  | stop => exact .stop
  | next found _ ih => exact .next (itemAt_extends grown found) ih

end Extends

namespace NameTables

/-- A call that adds an entry to a table. -/
inductive Addition where
  | string (name : String)
  | stringData (data : List UInt8)
  | type (name : String)
  | field (name : String)
  | method (name : String)

namespace Addition

/-- The table that gets the entry. -/
def kind : Addition → ReferenceKind
  | string _ | stringData _ => .string
  | type _ => .type
  | field _ => .field
  | method _ => .method

/-- What is stored. -/
def name : Addition → String
  | string name | type name | field name | method name => name
  | stringData data => (stringOfData? data).getD (Utf8.decodeLossy data)

/-- The tables after the call, and the index that it returns. -/
def call (t : NameTables) : Addition → NameTables × UInt32
  | string name => t.addString name
  | stringData data => (t.addStringData data).value
  | type name => t.addType name
  | field name => t.addField name
  | method name => t.addMethod name

end Addition

/-- The tables after calls one after the other, and the indices that these return. -/
def callAll (t : NameTables) : List Addition → NameTables × List UInt32
  | [] => (t, [])
  | a :: rest => ((callAll (a.call t).1 rest).1, (a.call t).2 :: (callAll (a.call t).1 rest).2)

/-- The table for a kind of reference. -/
def table (t : NameTables) : ReferenceKind → Array String
  | .none => #[]
  | .string => t.strings
  | .type => t.types
  | .field => t.fields
  | .method => t.methods

theorem lookup_toPool (t : NameTables) (kind : ReferenceKind) (index : UInt32) :
    t.toPool.lookup kind index = (t.table kind)[index.toNat]? := by
  cases kind <;> rfl

/-- A call adds one entry at the end of one table, and returns its index. -/
theorem call_eq (t : NameTables) (a : Addition) :
    (∀ kind, (a.call t).1.table kind = if kind = a.kind then (t.table kind).push a.name else t.table kind) ∧
      (a.call t).2 = UInt32.ofNat (t.table a.kind).size := by
  cases a with
  | string name | type name | field name | method name => exact ⟨fun kind => by cases kind <;> rfl, rfl⟩
  | stringData data =>
    simp only [Addition.call, addStringData, Addition.name]
    cases stringOfData? data <;> exact ⟨fun kind => by cases kind <;> rfl, rfl⟩

variable {t : NameTables} {additions : List Addition}

theorem callAll_append (t : NameTables) (before after : List Addition) :
    (t.callAll (before ++ after)).1 = ((t.callAll before).1.callAll after).1 := by
  induction before generalizing t with
  | nil => rfl
  | cons a before ih => exact ih (a.call t).1

/-- Calls add their names in order at the end of the tables. -/
theorem table_callAll (t : NameTables) (additions : List Addition) (kind : ReferenceKind) :
    ((t.callAll additions).1.table kind).toList =
      (t.table kind).toList ++ (additions.filter (·.kind = kind)).map Addition.name := by
  induction additions generalizing t with
  | nil => rw [List.filter_nil, List.map_nil, List.append_nil, callAll]
  | cons a rest ih =>
    rw [callAll, ih, (call_eq t a).1 kind]
    by_cases own : a.kind = kind
    · rw [if_pos own.symm, List.filter_cons_of_pos (by simpa using own), Array.toList_push, List.append_assoc]
      rfl
    · rw [if_neg (Ne.symm own), List.filter_cons_of_neg (by simpa using own)]

theorem size_table_callAll (t : NameTables) (additions : List Addition) (kind : ReferenceKind) :
    ((t.callAll additions).1.table kind).size = (t.table kind).size + additions.countP (·.kind = kind) := by
  rw [← Array.length_toList, table_callAll, List.length_append, List.length_map, ← List.countP_eq_length_filter,
    Array.length_toList]

/-- What was in a table stays where it was. -/
theorem getElem?_callAll {kind : ReferenceKind} {i : Nat} (inside : i < (t.table kind).size)
    (additions : List Addition) : ((t.callAll additions).1.table kind)[i]? = (t.table kind)[i]? := by
  rw [← Array.getElem?_toList, table_callAll, List.getElem?_append_left (by simpa using inside),
    Array.getElem?_toList]

/-- Tables that have been added to know all that they knew. -/
theorem toPool_extends (t : NameTables) (additions : List Addition) :
    t.toPool.Extends (t.callAll additions).1.toPool := by
  intro kind index name found
  rw [lookup_toPool] at found ⊢
  have inside : index.toNat < (t.table kind).size := (Array.getElem?_eq_some_iff.mp found).1
  rw [getElem?_callAll inside, found]

/-- The index that a call returns is exact if the table has room for the entry. -/
theorem toNat_call {a : Addition} (room : ((a.call t).1.table a.kind).size ≤ UInt32.size) :
    (a.call t).2.toNat = (t.table a.kind).size := by
  obtain ⟨tables, index⟩ := call_eq t a
  rw [tables, if_pos rfl, Array.size_push] at room
  rw [index, UInt32.toNat_ofNat_of_lt' (by omega)]

/-- The indices of one table count on from its size. -/
theorem indices_callAll (room : ∀ kind, ((t.callAll additions).1.table kind).size ≤ UInt32.size)
    (kind : ReferenceKind) :
    ((additions.zip (t.callAll additions).2).filter (·.1.kind = kind)).map (·.2.toNat) =
      List.range' (t.table kind).size (additions.countP (·.kind = kind)) := by
  induction additions generalizing t with
  | nil => rfl
  | cons a rest ih =>
    have later := ih (t := (a.call t).1) room
    rw [(call_eq t a).1 kind] at later
    rw [callAll, List.zip_cons_cons]
    by_cases own : a.kind = kind
    · have first : (a.call t).2.toNat = (t.table a.kind).size := by
        refine toNat_call ?_
        have total := room a.kind
        rw [callAll, size_table_callAll] at total
        omega
      rw [if_pos own.symm, Array.size_push] at later
      rw [List.filter_cons_of_pos (by simpa using own), List.map_cons, later, first, own,
        List.countP_cons_of_pos (by simpa using own), List.range'_succ]
    · rw [if_neg (Ne.symm own)] at later
      rw [List.filter_cons_of_neg (by simpa using own), later, List.countP_cons_of_neg (by simpa using own)]

end NameTables

open NameTables in
/-- Tables only grow. After calls that leave room for all indices, an index returned by one of them resolves to
what that call stored, then and after each later call; the indices of a table are consecutive; behind its last
entry nothing resolves; and a call leaves the other tables alone. So what decoded with the tables before decodes
to the same after. -/
theorem callAll_append_only (t : NameTables) (additions : List Addition)
    (room : ∀ kind, ((t.callAll additions).1.table kind).size ≤ UInt32.size) :
    (∀ before a later rest, additions = before ++ a :: later ++ rest →
      (t.callAll (before ++ a :: later)).1.toPool.lookup a.kind (a.call (t.callAll before).1).2 = some a.name) ∧
    (∀ kind, ((additions.zip (t.callAll additions).2).filter (·.1.kind = kind)).map (·.2.toNat) =
      List.range' (t.table kind).size (additions.countP (·.kind = kind))) ∧
    (∀ kind (index : UInt32), ((t.callAll additions).1.table kind).size ≤ index.toNat →
      (t.callAll additions).1.toPool.lookup kind index = none) ∧
    (∀ before a rest, additions = before ++ a :: rest → ∀ kind ≠ a.kind, ∀ index,
      (a.call (t.callAll before).1).1.toPool.lookup kind index = (t.callAll before).1.toPool.lookup kind index) ∧
    ∀ code base d, (disassemble code base t.toPool).value = .ok d →
      (disassemble code base (t.callAll additions).1.toPool).value = .ok d := by
  refine ⟨?_, indices_callAll room, ?_, ?_, ?_⟩
  · rintro before a later rest rfl
    have roomFor : ((a.call (t.callAll before).1).1.table a.kind).size ≤ UInt32.size := by
      have total := room a.kind
      rw [List.append_assoc, callAll_append, List.cons_append, callAll, size_table_callAll] at total
      omega
    have index := toNat_call roomFor
    rw [callAll_append, callAll, lookup_toPool, index, getElem?_callAll]
    · rw [(call_eq _ a).1, if_pos rfl, Array.getElem?_push_size]
    · rw [(call_eq _ a).1, if_pos rfl, Array.size_push]
      omega
  · intro kind index behind
    rw [lookup_toPool]
    exact Array.getElem?_eq_none behind
  · rintro before a rest rfl kind other index
    rw [lookup_toPool, lookup_toPool, (call_eq _ a).1, if_neg other]
  · intro code base d run
    obtain ⟨items, walk, rfl⟩ := disassemble_ok_iff.mp run
    exact (walk.extends (toPool_extends t additions)).disassemble_ok

/-- A string that is loaded before and after a type and two more strings are added. -/
theorem callAll_append_only_strings :
    let t : NameTables := { strings := #["hello"] }
    let additions : List NameTables.Addition := [.type "LMain;", .string "world", .stringData [0xc0, 0x80]]
    let grown := (t.callAll additions).1.toPool
    let load : List UInt8 := [0x1a, 0, 0, 0]
    grown.lookup .string 1 = some "world" ∧ grown.lookup .string 3 = none ∧
      ∃ d, (disassemble load 0 t.toPool).value = .ok d ∧ (disassemble load 0 grown).value = .ok d := by
  intro t additions grown load
  have sizes := t.size_table_callAll additions
  have room : ∀ kind, ((t.callAll additions).1.table kind).size ≤ UInt32.size := by
    intro kind
    rw [sizes]
    cases kind <;> decide
  have walk :
      Walk load 0 t.toPool 0 [.instruction ⟨0, .ofByte 0x1a, [.register 0, .reference .string 0 "hello"]⟩] 4 :=
    .next rfl .stop
  obtain ⟨resolves, _, behind, _, decodes⟩ := callAll_append_only t additions room
  refine ⟨resolves [.type "LMain;"] (.string "world") [.stringData [0xc0, 0x80]] [] rfl, behind .string 3 ?_, _,
    walk.disassemble_ok, decodes _ _ _ walk.disassemble_ok⟩
  rw [sizes]
  decide

end Dalvik
