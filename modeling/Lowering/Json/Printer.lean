import Lowering.Json.Value
import Lowering.Numeric.Decimal

/-!
# Written documents

* `Json.quote`: a text between quotation marks, with the marks, the reverse stroke and control
  characters escaped;
* `Json.compact`: a document on one line;
* `Json.pretty`: a document with one item or field a line, two blanks deeper at each level.
-/

namespace Lowering.Json

/-- A hexadecimal digit, in lower case. -/
def hexDigit (n : Nat) : Char :=
  if n < 10 then Char.ofNat ('0'.toNat + n) else Char.ofNat ('a'.toNat + (n - 10))

/-- A character of a text as it is written between quotation marks. -/
def escape (c : Char) : List Char :=
  if c = '"' then ['\\', '"']
  else if c = '\\' then ['\\', '\\']
  else if c = '\x08' then ['\\', 'b']
  else if c = '\x0c' then ['\\', 'f']
  else if c = '\n' then ['\\', 'n']
  else if c = '\r' then ['\\', 'r']
  else if c = '\t' then ['\\', 't']
  else if c.toNat < 0x20 then
    ['\\', 'u', '0', '0', hexDigit (c.toNat / 16), hexDigit (c.toNat % 16)]
  else [c]

/-- A text between quotation marks. -/
def quote (s : String) : String := "\"" ++ String.ofList (s.toList.flatMap escape) ++ "\""

/-- The text of a number. -/
def Number.text : Number → String
  | .integer n => toString n
  | .float x => x.text .document

mutual

/-- The document on one line. -/
def compact : Json → String
  | .null => "null"
  | .bool b => if b then "true" else "false"
  | .number n => n.text
  | .string s => quote s
  | .array items => "[" ++ compactItems items ++ "]"
  | .object fields => "\x7b" ++ compactFields fields ++ "\x7d"
  | .unreadable => "null"

/-- Items on one line. -/
def compactItems : List Json → String
  | [] => ""
  | [j] => j.compact
  | j :: rest => j.compact ++ "," ++ compactItems rest

/-- Fields on one line. -/
def compactFields : List (String × Json) → String
  | [] => ""
  | [(k, j)] => quote k ++ ":" ++ j.compact
  | (k, j) :: rest => quote k ++ ":" ++ j.compact ++ "," ++ compactFields rest

end

/-- The start of a line at a level. -/
def indent (level : Nat) : String := String.ofList (List.replicate (2 * level) ' ')

mutual

/-- The document from a level on, one item or field a line. -/
def prettyAt (level : Nat) : Json → String
  | .array [] => "[]"
  | .array items => "[\n" ++ prettyItems (level + 1) items ++ "\n" ++ indent level ++ "]"
  | .object [] => "\x7b\x7d"
  | .object fields =>
    "\x7b\n" ++ prettyFields (level + 1) fields ++ "\n" ++ indent level ++ "\x7d"
  | .null => "null"
  | .bool b => if b then "true" else "false"
  | .number n => n.text
  | .string s => quote s
  | .unreadable => "null"

/-- Items, each on lines of its own. -/
def prettyItems (level : Nat) : List Json → String
  | [] => ""
  | [j] => indent level ++ j.prettyAt level
  | j :: rest => indent level ++ j.prettyAt level ++ ",\n" ++ prettyItems level rest

/-- Fields, each on lines of its own. -/
def prettyFields (level : Nat) : List (String × Json) → String
  | [] => ""
  | [(k, j)] => indent level ++ quote k ++ ": " ++ j.prettyAt level
  | (k, j) :: rest =>
    indent level ++ quote k ++ ": " ++ j.prettyAt level ++ ",\n" ++ prettyFields level rest

end

/-- The document with one item or field a line. -/
def pretty (j : Json) : String := j.prettyAt 0

end Lowering.Json
