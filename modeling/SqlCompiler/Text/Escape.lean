import SqlCompiler.Text.Hex
import SqlCompiler.Text.Unprintable

/-!
# Escaped texts

A text between quotation marks on one line, in which every character is visible: quotation marks
and backslashes are escaped, the usual control characters have their letters, and any other
character without a mark of its own is written by its hexadecimal code point.
-/

set_option autoImplicit false
namespace SqlCompiler
namespace Text

/-- The escaped form of one character. -/
def escapeChar (c : Char) : String :=
  if c = Char.ofNat 34 then "\\\""
  else if c = '\\' then "\\\\"
  else if c = '\n' then "\\n"
  else if c = '\t' then "\\t"
  else if c = '\r' then "\\r"
  else if c = Char.ofNat 0 then "\\0"
  else if isUnprintable c then "\\u\x7b" ++ hexNat c.toNat ++ "\x7d"
  else String.singleton c

/-- The text between quotation marks, escaped. -/
def escape (s : String) : String :=
  "\"" ++ String.join (s.toList.map escapeChar) ++ "\""

end Text
end SqlCompiler
