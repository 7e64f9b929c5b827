import Dalvik.Json.Basic
import Dalvik.Numeral

namespace Dalvik

namespace Json

/-- Quotation marks, backslashes and control characters are escaped, and nothing else. -/
def escape (c : Char) : List Char :=
  if c = '"' then ['\\', '"']
  else if c = '\\' then ['\\', '\\']
  else if c = '\x08' then ['\\', 'b']
  else if c = '\x0c' then ['\\', 'f']
  else if c = '\n' then ['\\', 'n']
  else if c = '\r' then ['\\', 'r']
  else if c = '\t' then ['\\', 't']
  else if c.toNat < 0x20 then ['\\', 'u', '0', '0', (c.toNat / 16).digitChar, (c.toNat % 16).digitChar]
  else [c]

def quoted (text : String) : String := "\"" ++ String.ofList (text.toList.flatMap escape) ++ "\""

/-- A number that is no integer is written as the shortest such literal, negative zero, and a string that is no text
as a lone surrogate. -/
def Token.text : Token → String
  | null => "null"
  | bool true => "true"
  | bool false => "false"
  | number (some value) => signedDecimal value
  | number none => "-0"
  | string (some value) => quoted value
  | string none => "\"\\ud800\""
  | arrayStart => "["
  | arrayEnd => "]"
  | objectStart => "\x7b"
  | objectEnd => "\x7d"
  | comma => ","
  | colon => ":"

/-- The text without any white space between tokens. -/
def render (j : Json) : String := String.join (j.tokens.map Token.text)

end Json

end Dalvik
