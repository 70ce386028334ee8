import CrowdScenario.Bytes
import CrowdScenario.Text.Unprintable

/-!
# Quoted text

Texts from outside are quoted in messages and listings: a backslash stands before quotes,
backslashes and the letters of common controls, and any other character without a shape is given by
its code point. A quoted text has no line break.
-/

namespace CrowdScenario.Text

def quoteChar (c : Char) : String :=
  if c = '"' then "\\\""
  else if c = '\\' then "\\\\"
  else if c = '\n' then "\\n"
  else if c = '\r' then "\\r"
  else if c = '\t' then "\\t"
  else if c.toNat = 0 then "\\0"
  else if isUnprintable c then "\\u\x7b" ++ Bytes.hexPadded 1 c.toNat ++ "\x7d"
  else c.toString

def quoted (s : String) : String := "\"" ++ String.join (s.toList.map quoteChar) ++ "\""

end CrowdScenario.Text
