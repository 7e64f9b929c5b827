import Dalvik.Instruction.Basic
import Dalvik.Json.Access
import Dalvik.Json.Parser
import Dalvik.Json.Printer
import Dalvik.Payload.Basic

namespace Dalvik

namespace Format

def jsonName (f : Format) : String := "Format" ++ f.tag

def toJson (f : Format) : Json := .text f.jsonName

def ofJson? (j : Json) : Option Format := do
  let name ← j.name?
  all.find? (·.jsonName = name)

end Format

namespace ReferenceKind

def jsonName : ReferenceKind → String
  | none => "None"
  | string => "String"
  | type => "Type"
  | field => "Field"
  | method => "Method"

def toJson (kind : ReferenceKind) : Json := .text kind.jsonName

def ofJson? (j : Json) : Option ReferenceKind := do
  let name ← j.name?
  all.find? (·.jsonName = name)

end ReferenceKind

namespace PayloadKind

def jsonName : PayloadKind → String
  | packedSwitch => "PackedSwitch"
  | sparseSwitch => "SparseSwitch"
  | arrayData => "ArrayData"

def toJson (kind : PayloadKind) : Json := .text kind.jsonName

def ofJson? (j : Json) : Option PayloadKind := do
  let name ← j.name?
  all.find? (·.jsonName = name)

end PayloadKind

namespace Operand

/-- An object whose one key names the kind of operand. -/
def toJson : Operand → Json
  | register number => .fields [("Register", .integer number.toNat)]
  | literal value => .fields [("Literal", .integer value.toInt)]
  | high bits wide => .fields [("HighLiteral", .fields [("bits", .integer bits.toNat), ("wide", .bool wide)])]
  | target address => .fields [("Target", .integer address.toInt)]
  | farTarget address => .fields [("Offset32", .integer address.toInt)]
  | reference kind index name =>
    .fields [("Reference",
      .fields [("kind", kind.toJson), ("index", .integer index.toNat), ("name", .text name)])]

def highOfJson? (j : Json) : Option Operand := do
  match ← j.fields? ["bits", "wide"] with
  | [bits, wide] => return high (← bits.uint16?) (← wide.bool?)
  | _ => none

def referenceOfJson? (j : Json) : Option Operand := do
  match ← j.fields? ["kind", "index", "name"] with
  | [kind, index, name] => return reference (← ReferenceKind.ofJson? kind) (← index.uint32?) (← name.text?)
  | _ => none

def ofJson? : Json → Option Operand
  | .object [(some key, value)] =>
    match key with
    | "Register" => value.uint16?.map register
    | "Literal" => value.int64?.map literal
    | "HighLiteral" => highOfJson? value
    | "Target" => value.int64?.map target
    | "Offset32" => value.int64?.map farTarget
    | "Reference" => referenceOfJson? value
    | _ => none
  | _ => none

end Operand

namespace TextRecord

def toJson (r : TextRecord) : Json :=
  .fields [("mnemonic", .text r.mnemonic), ("format", r.format.toJson),
    ("operands", .array (r.operands.map Json.text))]

def ofJson? (j : Json) : Option TextRecord := do
  match ← j.fields? ["mnemonic", "format", "operands"] with
  | [mnemonic, format, operands] =>
    return ⟨← mnemonic.text?, ← Format.ofJson? format, ← operands.list? Json.text?⟩
  | _ => none

end TextRecord

end Dalvik
