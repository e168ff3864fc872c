import LaneKernel.Text.Number
import LaneKernel.Text.Printable

/-!
# Quoted text

A text between double quotes.  Printable characters stand for themselves, the
quote and the backslash follow a backslash, and every other character is written
by name or by number.
-/

namespace LaneKernel.Text

/-- One character inside quotes. -/
def quoteChar (character : Char) : String :=
  let code := character.toNat
  if character = '"' then "\\\""
  else if character = '\\' then "\\\\"
  else if isPrintable character then character.toString
  else if code = 7 then "\\a"
  else if code = 8 then "\\b"
  else if code = 12 then "\\f"
  else if code = 10 then "\\n"
  else if code = 13 then "\\r"
  else if code = 9 then "\\t"
  else if code = 11 then "\\v"
  else if code < 0x20 ∨ code = 0x7f then "\\x" ++ hexPadded 2 code
  else if code < 0x10000 then "\\u" ++ hexPadded 4 code
  else "\\U" ++ hexPadded 8 code

/-- A text between double quotes. -/
def quote (text : String) : String :=
  "\"" ++ text.foldl (fun quoted character => quoted ++ quoteChar character)
    "" ++ "\""

end LaneKernel.Text
