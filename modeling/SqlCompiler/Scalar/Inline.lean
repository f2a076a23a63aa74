import SqlCompiler.Error
import SqlCompiler.Scalar.Value
import SqlCompiler.Text.Quote

/-!
# Inline constants

The text of a constant inside a statement, as most databases read it: texts between apostrophes,
dates and times in the braces of an escape clause, bytes in hexadecimal.
-/

set_option autoImplicit false
namespace SqlCompiler
namespace Value

/-- A text constant. -/
def quoteText (s : String) : String :=
  Text.Quote.apostrophes.write s

/-- An escape clause: a keyword and a quoted text in braces. -/
def escapeClause (keyword content : String) : String :=
  "\x7b" ++ keyword ++ " '" ++ content ++ "'\x7d"

/-- The text of a value of the given kind inside a statement.  A large object has none. -/
def inline (kind : Kind) : Value → Except Error String
  | null => .ok "null"
  | bool b => .ok (if b then "true" else "false")
  | short n => .ok (toString n.toInt)
  | int n => .ok (toString n.toInt)
  | long n => .ok (toString n.toInt)
  | float x => .ok x.text
  | double x => .ok x.text
  | decimal d => .ok d.text
  | string s => .ok (quoteText s)
  | date d => .ok (escapeClause "d" d.text)
  | time t => .ok (escapeClause "t" t.clock)
  | timestamp ts => .ok (escapeClause "ts" ts.text)
  | uuid u => .ok (quoteText u.text)
  | bytes bs =>
    if kind = .blob then .error (.malformed .inlineLargeObject)
    else .ok ("X" ++ quoteText (Text.hexUpper bs))

end Value
end SqlCompiler
