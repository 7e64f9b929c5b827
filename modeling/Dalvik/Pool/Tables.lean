import Dalvik.Log
import Dalvik.Pool.Basic
import Dalvik.Text.Mutf8
import Dalvik.Text.Utf8

namespace Dalvik

/-- Tables of names that grow at the end. -/
structure NameTables where
  strings : Array String := #[]
  types : Array String := #[]
  fields : Array String := #[]
  methods : Array String := #[]

namespace NameTables

/-- Index of the entry that is added next to a table. -/
def nextIndex (table : Array String) : UInt32 := UInt32.ofNat table.size

def addString (t : NameTables) (name : String) : NameTables × UInt32 :=
  ({ t with strings := t.strings.push name }, nextIndex t.strings)

def addType (t : NameTables) (name : String) : NameTables × UInt32 :=
  ({ t with types := t.types.push name }, nextIndex t.types)

def addField (t : NameTables) (name : String) : NameTables × UInt32 :=
  ({ t with fields := t.fields.push name }, nextIndex t.fields)

def addMethod (t : NameTables) (name : String) : NameTables × UInt32 :=
  ({ t with methods := t.methods.push name }, nextIndex t.methods)

/-- The text of string data, which is accepted in UTF-8 as well as in modified UTF-8. -/
def stringOfData? (data : List UInt8) : Option String :=
  (Utf8.decode? data).or (Mutf8.decode? data)

/-- Adds the text of string data. Data in neither encoding is decoded lossily, and a warning logged. -/
def addStringData (t : NameTables) (data : List UInt8) : Logged (NameTables × UInt32) :=
  match stringOfData? data with
  | some name => ⟨t.addString name, []⟩
  | none => ⟨t.addString (Utf8.decodeLossy data), [.lossyString t.strings.size]⟩

/-- Keeps the first `length` strings. -/
def truncateStrings (t : NameTables) (length : Nat) : NameTables :=
  { t with strings := t.strings.take length }

def toPool (t : NameTables) : ConstantPool where
  string index := t.strings[index.toNat]?
  type index := t.types[index.toNat]?
  field index := t.fields[index.toNat]?
  method index := t.methods[index.toNat]?

end NameTables

end Dalvik
