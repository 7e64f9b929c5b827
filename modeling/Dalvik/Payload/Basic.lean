namespace Dalvik

/-- The kinds of inline data block that may stand between instructions. -/
inductive PayloadKind where
  | packedSwitch | sparseSwitch | arrayData
  deriving DecidableEq, Repr, Inhabited

namespace PayloadKind

def all : List PayloadKind := [packedSwitch, sparseSwitch, arrayData]

/-- The byte that follows the `nop` opcode byte at the start of a block. -/
def marker : PayloadKind → UInt8
  | packedSwitch => 1
  | sparseSwitch => 2
  | arrayData => 3

def ofMarker? (marker : UInt8) : Option PayloadKind := all.find? (·.marker = marker)

def name : PayloadKind → String
  | packedSwitch => "packed-switch-payload"
  | sparseSwitch => "sparse-switch-payload"
  | arrayData => "array-payload"

theorem ofMarker?_marker (kind : PayloadKind) : ofMarker? kind.marker = some kind := by
  cases kind <;> decide

end PayloadKind

end Dalvik
