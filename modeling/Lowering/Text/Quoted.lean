import Lowering.Text.Hidden

/-!
# Quoted texts

A text between quotation marks, with escapes for the marks, for line ends and for characters that
do not show.

* `Text.escaped`, `Text.quoted`.
-/

namespace Lowering.Text

/-- The hexadecimal digits of a number, in lower case. -/
def hexDigits (n : Nat) : String := String.ofList (Nat.toDigits 16 n)

/-- The written form of a character inside quotation marks. -/
def escaped (c : Char) : String :=
  if c = '\x00' then "\\0"
  else if c = '\t' then "\\t"
  else if c = '\r' then "\\r"
  else if c = '\n' then "\\n"
  else if c = '"' then "\\\""
  else if c = '\\' then "\\\\"
  else if isHidden c then "\\u\x7b" ++ hexDigits c.toNat ++ "\x7d"
  else c.toString

/-- A text between quotation marks. -/
def quoted (s : String) : String := "\"" ++ String.join (s.toList.map escaped) ++ "\""

end Lowering.Text
