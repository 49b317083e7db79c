/-
A text between quotation marks on one line: marks, backslashes and ends of lines are written with a backslash, and what
shows nothing by itself is written by its code point.
-/
import TradingRobots.Text.Unshown

namespace TradingRobots.Text

/-- a character between quotation marks -/
def escape (c : Char) : String :=
  if c = '"' then "\\\""
  else if c = '\\' then "\\\\"
  else if c = '\n' then "\\n"
  else if c = '\r' then "\\r"
  else if c = '\t' then "\\t"
  else if c.toNat = 0 then "\\0"
  else if isUnshown c then "\\u\x7b" ++ String.ofList (Nat.toDigits 16 c.toNat) ++ "\x7d"
  else c.toString

def quoted (s : String) : String :=
  "\"" ++ String.join (s.toList.map escape) ++ "\""

end TradingRobots.Text
