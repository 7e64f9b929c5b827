namespace Dalvik

/-- A JSON tree, in which a number is known only if it is written as an integer, and a string only if its escapes
leave no surrogate unpaired. Members keep their order and may repeat a key. -/
inductive Json where
  | null
  | bool (value : Bool)
  | number (value : Option Int)
  | string (value : Option String)
  | array (items : List Json)
  | object (members : List (Option String × Json))

namespace Json

inductive Token where
  | null
  | bool (value : Bool)
  | number (value : Option Int)
  | string (value : Option String)
  | arrayStart | arrayEnd | objectStart | objectEnd | comma | colon
  deriving DecidableEq, Repr

mutual

def tokens : Json → List Token
  | null => [.null]
  | bool value => [.bool value]
  | number value => [.number value]
  | string value => [.string value]
  | array items => .arrayStart :: (itemTokens items ++ [.arrayEnd])
  | object members => .objectStart :: (memberTokens members ++ [.objectEnd])

def itemTokens : List Json → List Token
  | [] => []
  | [item] => item.tokens
  | item :: rest => item.tokens ++ .comma :: itemTokens rest

def memberTokens : List (Option String × Json) → List Token
  | [] => []
  | [(key, value)] => .string key :: .colon :: value.tokens
  | (key, value) :: rest => .string key :: .colon :: (value.tokens ++ .comma :: memberTokens rest)

end

end Json

end Dalvik
