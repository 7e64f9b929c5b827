import Dalvik.Json.Basic

namespace Dalvik

namespace Json

def text (value : String) : Json := string (some value)

def integer (value : Int) : Json := number (some value)

/-- An object with distinct known keys. -/
def fields (members : List (String × Json)) : Json := object (members.map fun (key, value) => (some key, value))

def bool? : Json → Option Bool
  | bool value => some value
  | _ => none

def text? : Json → Option String
  | string value => value
  | _ => none

def integer? : Json → Option Int
  | number value => value
  | _ => none

def natBelow? (bound : Nat) (j : Json) : Option Nat := do
  let value ← j.integer?
  if 0 ≤ value ∧ value < bound then some value.toNat else none

def uint16? (j : Json) : Option UInt16 := (j.natBelow? 0x10000).map UInt16.ofNat

def uint32? (j : Json) : Option UInt32 := (j.natBelow? 0x100000000).map UInt32.ofNat

def int64? (j : Json) : Option Int64 := do
  let value ← j.integer?
  if -0x8000000000000000 ≤ value ∧ value < 0x8000000000000000 then some (Int64.ofInt value) else none

def list? {α : Type} (item? : Json → Option α) : Json → Option (List α)
  | array items => items.mapM item?
  | _ => none

/-- A name without content is a string, or the key of an object with the one member `null`. -/
def name? : Json → Option String
  | string name => name
  | object [(name, null)] => name
  | _ => none

/-- The value of a key that occurs exactly once. -/
def unique? (members : List (Option String × Json)) (key : String) : Option Json :=
  match members.filter (·.1 = some key) with
  | [(_, value)] => some value
  | _ => none

/-- The values of the named fields. They are given as the members of an object, in any order and among others, or as
the items of an array, in the order of the names and alone. -/
def fields? (names : List String) : Json → Option (List Json)
  | array items => if items.length = names.length then some items else none
  | object members => if members.all (·.1.isSome) then names.mapM (unique? members) else none
  | _ => none

end Json

end Dalvik
