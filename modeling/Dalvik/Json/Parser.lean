import Dalvik.Json.Lexer

namespace Dalvik

namespace Json

/-- An array or object around the value that is being read, with what precedes that value, latest first. -/
inductive Frame where
  | array (items : List Json)
  | object (members : List (Option String × Json)) (key : Option String)

/-- What may come next. -/
inductive Phase where
  | value
  | firstItem
  | firstMember
  | key (members : List (Option String × Json))
  | colon (members : List (Option String × Json)) (key : Option String)
  | after (value : Json)

/-- The frames around the next token, innermost first, and what it may be. -/
structure State where
  stack : List Frame
  phase : Phase

def startValue (stack : List Frame) : Token → Option State
  | .null => some ⟨stack, .after .null⟩
  | .bool value => some ⟨stack, .after (.bool value)⟩
  | .number value => some ⟨stack, .after (.number value)⟩
  | .string value => some ⟨stack, .after (.string value)⟩
  | .arrayStart => some ⟨stack, .firstItem⟩
  | .objectStart => some ⟨stack, .firstMember⟩
  | _ => none

/-- After a value its frame goes on or is closed. -/
def continueFrame (value : Json) : List Frame → Token → Option State
  | .array items :: stack, .comma => some ⟨.array (value :: items) :: stack, .value⟩
  | .array items :: stack, .arrayEnd => some ⟨stack, .after (.array (value :: items).reverse)⟩
  | .object members key :: stack, .comma => some ⟨stack, .key ((key, value) :: members)⟩
  | .object members key :: stack, .objectEnd => some ⟨stack, .after (.object ((key, value) :: members).reverse)⟩
  | _, _ => none

def step (state : State) (token : Token) : Option State :=
  match state.phase, token with
  | .value, token => startValue state.stack token
  | .firstItem, .arrayEnd => some ⟨state.stack, .after (.array [])⟩
  | .firstItem, token => startValue (.array [] :: state.stack) token
  | .firstMember, .objectEnd => some ⟨state.stack, .after (.object [])⟩
  | .firstMember, .string key => some ⟨state.stack, .colon [] key⟩
  | .key members, .string key => some ⟨state.stack, .colon members key⟩
  | .colon members key, .colon => some ⟨.object members key :: state.stack, .value⟩
  | .after value, token => continueFrame value state.stack token
  | _, _ => none

/-- The tree of one value with nothing before or after it. -/
def ofTokens? (tokens : List Token) : Option Json := do
  let state ← tokens.foldlM step ⟨[], .value⟩
  match state with
  | ⟨[], .after value⟩ => some value
  | _ => none

/-- Reads a text that holds one value and blanks. -/
def parse? (text : String) : Option Json := (lex? text.toList).bind ofTokens?

end Json

end Dalvik
