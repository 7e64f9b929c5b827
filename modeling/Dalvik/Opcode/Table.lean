import Dalvik.Opcode.Basic

namespace Dalvik

namespace Traits

/-- Control does not reach the next instruction. -/
def ends : Traits := {}

def flows : Traits := { canContinue := true }

def sets : Traits := { flows with setsRegister := true }

def setsWide : Traits := { sets with setsWideRegister := true }

def throws : Traits := { canThrow := true }

def checked : Traits := { flows with canThrow := true }

def checkedSets : Traits := { sets with canThrow := true }

def checkedSetsWide : Traits := { setsWide with canThrow := true }

/-- The result goes to the hidden register that a `move-result` reads. -/
def calls : Traits := { checked with setsResult := true }

end Traits

namespace Opcode

open Traits

def moves : List Opcode :=
  [⟨0x00, "nop", .f10x, .none, flows⟩,
   ⟨0x01, "move", .f12x, .none, sets⟩,
   ⟨0x02, "move/from16", .f22x, .none, sets⟩,
   ⟨0x03, "move/16", .f32x, .none, sets⟩,
   ⟨0x04, "move-wide", .f12x, .none, setsWide⟩,
   ⟨0x05, "move-wide/from16", .f22x, .none, setsWide⟩,
   ⟨0x06, "move-wide/16", .f32x, .none, setsWide⟩,
   ⟨0x07, "move-object", .f12x, .none, sets⟩,
   ⟨0x08, "move-object/from16", .f22x, .none, sets⟩,
   ⟨0x09, "move-object/16", .f32x, .none, sets⟩,
   ⟨0x0a, "move-result", .f11x, .none, sets⟩,
   ⟨0x0b, "move-result-wide", .f11x, .none, setsWide⟩,
   ⟨0x0c, "move-result-object", .f11x, .none, sets⟩,
   ⟨0x0d, "move-exception", .f11x, .none, sets⟩,
   ⟨0x0e, "return-void", .f10x, .none, ends⟩,
   ⟨0x0f, "return", .f11x, .none, ends⟩,
   ⟨0x10, "return-wide", .f11x, .none, ends⟩,
   ⟨0x11, "return-object", .f11x, .none, ends⟩]

def constants : List Opcode :=
  [⟨0x12, "const/4", .f11n, .none, sets⟩,
   ⟨0x13, "const/16", .f21s, .none, sets⟩,
   ⟨0x14, "const", .f31i, .none, sets⟩,
   ⟨0x15, "const/high16", .f21h, .none, sets⟩,
   ⟨0x16, "const-wide/16", .f21s, .none, setsWide⟩,
   ⟨0x17, "const-wide/32", .f31i, .none, setsWide⟩,
   ⟨0x18, "const-wide", .f51l, .none, setsWide⟩,
   ⟨0x19, "const-wide/high16", .f21h, .none, setsWide⟩,
   ⟨0x1a, "const-string", .f21c, .string, checkedSets⟩,
   ⟨0x1b, "const-string/jumbo", .f31c, .string, checkedSets⟩,
   ⟨0x1c, "const-class", .f21c, .type, checkedSets⟩]

def allocations : List Opcode :=
  [⟨0x1d, "monitor-enter", .f11x, .none, checked⟩,
   ⟨0x1e, "monitor-exit", .f11x, .none, checked⟩,
   ⟨0x1f, "check-cast", .f21c, .type, checkedSets⟩,
   ⟨0x20, "instance-of", .f22c, .type, checkedSets⟩,
   ⟨0x21, "array-length", .f12x, .none, checkedSets⟩,
   ⟨0x22, "new-instance", .f21c, .type, checkedSets⟩,
   ⟨0x23, "new-array", .f22c, .type, checkedSets⟩,
   ⟨0x24, "filled-new-array", .f35c, .type, calls⟩,
   ⟨0x25, "filled-new-array/range", .f3rc, .type, calls⟩,
   ⟨0x26, "fill-array-data", .f31t, .none, flows⟩]

def jumps : List Opcode :=
  [⟨0x27, "throw", .f11x, .none, throws⟩,
   ⟨0x28, "goto", .f10t, .none, ends⟩,
   ⟨0x29, "goto/16", .f20t, .none, ends⟩,
   ⟨0x2a, "goto/32", .f30t, .none, ends⟩,
   ⟨0x2b, "packed-switch", .f31t, .none, flows⟩,
   ⟨0x2c, "sparse-switch", .f31t, .none, flows⟩]

def comparisons : List Opcode :=
  [⟨0x2d, "cmpl-float", .f23x, .none, sets⟩,
   ⟨0x2e, "cmpg-float", .f23x, .none, sets⟩,
   ⟨0x2f, "cmpl-double", .f23x, .none, sets⟩,
   ⟨0x30, "cmpg-double", .f23x, .none, sets⟩,
   ⟨0x31, "cmp-long", .f23x, .none, sets⟩,
   ⟨0x32, "if-eq", .f22t, .none, flows⟩,
   ⟨0x33, "if-ne", .f22t, .none, flows⟩,
   ⟨0x34, "if-lt", .f22t, .none, flows⟩,
   ⟨0x35, "if-ge", .f22t, .none, flows⟩,
   ⟨0x36, "if-gt", .f22t, .none, flows⟩,
   ⟨0x37, "if-le", .f22t, .none, flows⟩,
   ⟨0x38, "if-eqz", .f21t, .none, flows⟩,
   ⟨0x39, "if-nez", .f21t, .none, flows⟩,
   ⟨0x3a, "if-ltz", .f21t, .none, flows⟩,
   ⟨0x3b, "if-gez", .f21t, .none, flows⟩,
   ⟨0x3c, "if-gtz", .f21t, .none, flows⟩,
   ⟨0x3d, "if-lez", .f21t, .none, flows⟩]

def arrayAccesses : List Opcode :=
  [⟨0x44, "aget", .f23x, .none, checkedSets⟩,
   ⟨0x45, "aget-wide", .f23x, .none, checkedSetsWide⟩,
   ⟨0x46, "aget-object", .f23x, .none, checkedSets⟩,
   ⟨0x47, "aget-boolean", .f23x, .none, checkedSets⟩,
   ⟨0x48, "aget-byte", .f23x, .none, checkedSets⟩,
   ⟨0x49, "aget-char", .f23x, .none, checkedSets⟩,
   ⟨0x4a, "aget-short", .f23x, .none, checkedSets⟩,
   ⟨0x4b, "aput", .f23x, .none, checked⟩,
   ⟨0x4c, "aput-wide", .f23x, .none, checked⟩,
   ⟨0x4d, "aput-object", .f23x, .none, checked⟩,
   ⟨0x4e, "aput-boolean", .f23x, .none, checked⟩,
   ⟨0x4f, "aput-byte", .f23x, .none, checked⟩,
   ⟨0x50, "aput-char", .f23x, .none, checked⟩,
   ⟨0x51, "aput-short", .f23x, .none, checked⟩]

def instanceFields : List Opcode :=
  [⟨0x52, "iget", .f22c, .field, checkedSets⟩,
   ⟨0x53, "iget-wide", .f22c, .field, checkedSetsWide⟩,
   ⟨0x54, "iget-object", .f22c, .field, checkedSets⟩,
   ⟨0x55, "iget-boolean", .f22c, .field, checkedSets⟩,
   ⟨0x56, "iget-byte", .f22c, .field, checkedSets⟩,
   ⟨0x57, "iget-char", .f22c, .field, checkedSets⟩,
   ⟨0x58, "iget-short", .f22c, .field, checkedSets⟩,
   ⟨0x59, "iput", .f22c, .field, checked⟩,
   ⟨0x5a, "iput-wide", .f22c, .field, checked⟩,
   ⟨0x5b, "iput-object", .f22c, .field, checked⟩,
   ⟨0x5c, "iput-boolean", .f22c, .field, checked⟩,
   ⟨0x5d, "iput-byte", .f22c, .field, checked⟩,
   ⟨0x5e, "iput-char", .f22c, .field, checked⟩,
   ⟨0x5f, "iput-short", .f22c, .field, checked⟩]

def staticFields : List Opcode :=
  [⟨0x60, "sget", .f21c, .field, checkedSets⟩,
   ⟨0x61, "sget-wide", .f21c, .field, checkedSetsWide⟩,
   ⟨0x62, "sget-object", .f21c, .field, checkedSets⟩,
   ⟨0x63, "sget-boolean", .f21c, .field, checkedSets⟩,
   ⟨0x64, "sget-byte", .f21c, .field, checkedSets⟩,
   ⟨0x65, "sget-char", .f21c, .field, checkedSets⟩,
   ⟨0x66, "sget-short", .f21c, .field, checkedSets⟩,
   ⟨0x67, "sput", .f21c, .field, checked⟩,
   ⟨0x68, "sput-wide", .f21c, .field, checked⟩,
   ⟨0x69, "sput-object", .f21c, .field, checked⟩,
   ⟨0x6a, "sput-boolean", .f21c, .field, checked⟩,
   ⟨0x6b, "sput-byte", .f21c, .field, checked⟩,
   ⟨0x6c, "sput-char", .f21c, .field, checked⟩,
   ⟨0x6d, "sput-short", .f21c, .field, checked⟩]

def invokes : List Opcode :=
  [⟨0x6e, "invoke-virtual", .f35c, .method, calls⟩,
   ⟨0x6f, "invoke-super", .f35c, .method, calls⟩,
   ⟨0x70, "invoke-direct", .f35c, .method, calls⟩,
   ⟨0x71, "invoke-static", .f35c, .method, calls⟩,
   ⟨0x72, "invoke-interface", .f35c, .method, calls⟩,
   ⟨0x74, "invoke-virtual/range", .f3rc, .method, calls⟩,
   ⟨0x75, "invoke-super/range", .f3rc, .method, calls⟩,
   ⟨0x76, "invoke-direct/range", .f3rc, .method, calls⟩,
   ⟨0x77, "invoke-static/range", .f3rc, .method, calls⟩,
   ⟨0x78, "invoke-interface/range", .f3rc, .method, calls⟩]

def conversions : List Opcode :=
  [⟨0x7b, "neg-int", .f12x, .none, sets⟩,
   ⟨0x7c, "not-int", .f12x, .none, sets⟩,
   ⟨0x7d, "neg-long", .f12x, .none, setsWide⟩,
   ⟨0x7e, "not-long", .f12x, .none, setsWide⟩,
   ⟨0x7f, "neg-float", .f12x, .none, sets⟩,
   ⟨0x80, "neg-double", .f12x, .none, setsWide⟩,
   ⟨0x81, "int-to-long", .f12x, .none, setsWide⟩,
   ⟨0x82, "int-to-float", .f12x, .none, sets⟩,
   ⟨0x83, "int-to-double", .f12x, .none, setsWide⟩,
   ⟨0x84, "long-to-int", .f12x, .none, sets⟩,
   ⟨0x85, "long-to-float", .f12x, .none, sets⟩,
   ⟨0x86, "long-to-double", .f12x, .none, setsWide⟩,
   ⟨0x87, "float-to-int", .f12x, .none, sets⟩,
   ⟨0x88, "float-to-long", .f12x, .none, setsWide⟩,
   ⟨0x89, "float-to-double", .f12x, .none, setsWide⟩,
   ⟨0x8a, "double-to-int", .f12x, .none, sets⟩,
   ⟨0x8b, "double-to-long", .f12x, .none, setsWide⟩,
   ⟨0x8c, "double-to-float", .f12x, .none, sets⟩,
   ⟨0x8d, "int-to-byte", .f12x, .none, sets⟩,
   ⟨0x8e, "int-to-char", .f12x, .none, sets⟩,
   ⟨0x8f, "int-to-short", .f12x, .none, sets⟩]

def binaryOperations : List Opcode :=
  [⟨0x90, "add-int", .f23x, .none, sets⟩,
   ⟨0x91, "sub-int", .f23x, .none, sets⟩,
   ⟨0x92, "mul-int", .f23x, .none, sets⟩,
   ⟨0x93, "div-int", .f23x, .none, checkedSets⟩,
   ⟨0x94, "rem-int", .f23x, .none, checkedSets⟩,
   ⟨0x95, "and-int", .f23x, .none, sets⟩,
   ⟨0x96, "or-int", .f23x, .none, sets⟩,
   ⟨0x97, "xor-int", .f23x, .none, sets⟩,
   ⟨0x98, "shl-int", .f23x, .none, sets⟩,
   ⟨0x99, "shr-int", .f23x, .none, sets⟩,
   ⟨0x9a, "ushr-int", .f23x, .none, sets⟩,
   ⟨0x9b, "add-long", .f23x, .none, setsWide⟩,
   ⟨0x9c, "sub-long", .f23x, .none, setsWide⟩,
   ⟨0x9d, "mul-long", .f23x, .none, setsWide⟩,
   ⟨0x9e, "div-long", .f23x, .none, checkedSetsWide⟩,
   ⟨0x9f, "rem-long", .f23x, .none, checkedSetsWide⟩,
   ⟨0xa0, "and-long", .f23x, .none, setsWide⟩,
   ⟨0xa1, "or-long", .f23x, .none, setsWide⟩,
   ⟨0xa2, "xor-long", .f23x, .none, setsWide⟩,
   ⟨0xa3, "shl-long", .f23x, .none, setsWide⟩,
   ⟨0xa4, "shr-long", .f23x, .none, setsWide⟩,
   ⟨0xa5, "ushr-long", .f23x, .none, setsWide⟩,
   ⟨0xa6, "add-float", .f23x, .none, sets⟩,
   ⟨0xa7, "sub-float", .f23x, .none, sets⟩,
   ⟨0xa8, "mul-float", .f23x, .none, sets⟩,
   ⟨0xa9, "div-float", .f23x, .none, sets⟩,
   ⟨0xaa, "rem-float", .f23x, .none, sets⟩,
   ⟨0xab, "add-double", .f23x, .none, setsWide⟩,
   ⟨0xac, "sub-double", .f23x, .none, setsWide⟩,
   ⟨0xad, "mul-double", .f23x, .none, setsWide⟩,
   ⟨0xae, "div-double", .f23x, .none, setsWide⟩,
   ⟨0xaf, "rem-double", .f23x, .none, setsWide⟩]

def twoAddressOperations : List Opcode :=
  [⟨0xb0, "add-int/2addr", .f12x, .none, sets⟩,
   ⟨0xb1, "sub-int/2addr", .f12x, .none, sets⟩,
   ⟨0xb2, "mul-int/2addr", .f12x, .none, sets⟩,
   ⟨0xb3, "div-int/2addr", .f12x, .none, checkedSets⟩,
   ⟨0xb4, "rem-int/2addr", .f12x, .none, checkedSets⟩,
   ⟨0xb5, "and-int/2addr", .f12x, .none, sets⟩,
   ⟨0xb6, "or-int/2addr", .f12x, .none, sets⟩,
   ⟨0xb7, "xor-int/2addr", .f12x, .none, sets⟩,
   ⟨0xb8, "shl-int/2addr", .f12x, .none, sets⟩,
   ⟨0xb9, "shr-int/2addr", .f12x, .none, sets⟩,
   ⟨0xba, "ushr-int/2addr", .f12x, .none, sets⟩,
   ⟨0xbb, "add-long/2addr", .f12x, .none, setsWide⟩,
   ⟨0xbc, "sub-long/2addr", .f12x, .none, setsWide⟩,
   ⟨0xbd, "mul-long/2addr", .f12x, .none, setsWide⟩,
   ⟨0xbe, "div-long/2addr", .f12x, .none, checkedSetsWide⟩,
   ⟨0xbf, "rem-long/2addr", .f12x, .none, checkedSetsWide⟩,
   ⟨0xc0, "and-long/2addr", .f12x, .none, setsWide⟩,
   ⟨0xc1, "or-long/2addr", .f12x, .none, setsWide⟩,
   ⟨0xc2, "xor-long/2addr", .f12x, .none, setsWide⟩,
   ⟨0xc3, "shl-long/2addr", .f12x, .none, setsWide⟩,
   ⟨0xc4, "shr-long/2addr", .f12x, .none, setsWide⟩,
   ⟨0xc5, "ushr-long/2addr", .f12x, .none, setsWide⟩,
   ⟨0xc6, "add-float/2addr", .f12x, .none, sets⟩,
   ⟨0xc7, "sub-float/2addr", .f12x, .none, sets⟩,
   ⟨0xc8, "mul-float/2addr", .f12x, .none, sets⟩,
   ⟨0xc9, "div-float/2addr", .f12x, .none, sets⟩,
   ⟨0xca, "rem-float/2addr", .f12x, .none, sets⟩,
   ⟨0xcb, "add-double/2addr", .f12x, .none, setsWide⟩,
   ⟨0xcc, "sub-double/2addr", .f12x, .none, setsWide⟩,
   ⟨0xcd, "mul-double/2addr", .f12x, .none, setsWide⟩,
   ⟨0xce, "div-double/2addr", .f12x, .none, setsWide⟩,
   ⟨0xcf, "rem-double/2addr", .f12x, .none, setsWide⟩]

def literalOperations : List Opcode :=
  [⟨0xd0, "add-int/lit16", .f22s, .none, sets⟩,
   ⟨0xd1, "rsub-int", .f22s, .none, sets⟩,
   ⟨0xd2, "mul-int/lit16", .f22s, .none, sets⟩,
   ⟨0xd3, "div-int/lit16", .f22s, .none, checkedSets⟩,
   ⟨0xd4, "rem-int/lit16", .f22s, .none, checkedSets⟩,
   ⟨0xd5, "and-int/lit16", .f22s, .none, sets⟩,
   ⟨0xd6, "or-int/lit16", .f22s, .none, sets⟩,
   ⟨0xd7, "xor-int/lit16", .f22s, .none, sets⟩,
   ⟨0xd8, "add-int/lit8", .f22b, .none, sets⟩,
   ⟨0xd9, "rsub-int/lit8", .f22b, .none, sets⟩,
   ⟨0xda, "mul-int/lit8", .f22b, .none, sets⟩,
   ⟨0xdb, "div-int/lit8", .f22b, .none, checkedSets⟩,
   ⟨0xdc, "rem-int/lit8", .f22b, .none, checkedSets⟩,
   ⟨0xdd, "and-int/lit8", .f22b, .none, sets⟩,
   ⟨0xde, "or-int/lit8", .f22b, .none, sets⟩,
   ⟨0xdf, "xor-int/lit8", .f22b, .none, sets⟩,
   ⟨0xe0, "shl-int/lit8", .f22b, .none, sets⟩,
   ⟨0xe1, "shr-int/lit8", .f22b, .none, sets⟩,
   ⟨0xe2, "ushr-int/lit8", .f22b, .none, sets⟩]

/-- The opcodes that carry an instruction, in value order. -/
def defined : List Opcode :=
  moves ++ constants ++ allocations ++ jumps ++ comparisons ++ arrayAccesses ++ instanceFields ++
    staticFields ++ invokes ++ conversions ++ binaryOperations ++ twoAddressOperations ++ literalOperations

/-- Every byte names an opcode: values without an instruction name an unused one. -/
def ofByte (value : UInt8) : Opcode := (defined.find? (·.value = value)).getD (unused value)

/-- All 256 opcodes in value order. -/
def table : List Opcode := (List.range 256).map fun n => ofByte (UInt8.ofNat n)

def ofMnemonic? (mnemonic : String) : Option Opcode := defined.find? (·.mnemonic = mnemonic)

end Opcode

end Dalvik
