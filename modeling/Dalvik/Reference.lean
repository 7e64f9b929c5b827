namespace Dalvik

/-- The constant pool table that an index refers to; `none` for opcodes without an index. -/
inductive ReferenceKind where
  | none | string | type | field | method
  deriving DecidableEq, Repr, Inhabited

namespace ReferenceKind

def all : List ReferenceKind := [none, string, type, field, method]

def name : ReferenceKind → String
  | none => "none"
  | string => "string"
  | type => "type"
  | field => "field"
  | method => "method"

def ofName? (name : String) : Option ReferenceKind := all.find? (·.name = name)

end ReferenceKind

end Dalvik
