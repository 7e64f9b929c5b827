import Dalvik.Error
import Dalvik.Operand.Basic

namespace Dalvik

/-- The display names behind the indices of the four tables. -/
structure ConstantPool where
  string : UInt32 → Option String
  type : UInt32 → Option String
  field : UInt32 → Option String
  method : UInt32 → Option String

namespace ConstantPool

def lookup (pool : ConstantPool) : ReferenceKind → UInt32 → Option String
  | .none, _ => none
  | .string, index => pool.string index
  | .type, index => pool.type index
  | .field, index => pool.field index
  | .method, index => pool.method index

def resolve (pool : ConstantPool) (kind : ReferenceKind) (index : UInt32) : Except Fault Operand :=
  if kind = .none then .error (.noReferenceTable index)
  else match pool.lookup kind index with
    | some name => .ok (.reference kind index name)
    | none => .error (.unresolvedIndex kind index)

def placeholderName (kind : ReferenceKind) (index : UInt32) : String :=
  kind.name ++ "@" ++ decimal index.toNat

/-- A pool that names every entry after its table and index, so that code decodes without tables. -/
def placeholder : ConstantPool where
  string index := some (placeholderName .string index)
  type index := some (placeholderName .type index)
  field index := some (placeholderName .field index)
  method index := some (placeholderName .method index)

end ConstantPool

end Dalvik
