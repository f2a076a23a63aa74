import SqlCompiler.Calendar.Basic
import SqlCompiler.Number.Decimal
import SqlCompiler.Scalar.Kind
import SqlCompiler.Text.Hex
import SqlCompiler.Uuid

/-!
# Scalar values

A value is a literal, a bound argument, or one cell of a row.

## What is here

* `Value` with its `Value.kind?`, `Value.typeName` and `Value.text`.
* `Value.same` — equality of values.  Values of different types never mix, floating-point values
  are compared by their bits, and decimals as numbers.
-/

set_option autoImplicit false
namespace SqlCompiler

/-- A scalar value. -/
inductive Value where
  | null
  | bool (b : Bool)
  | short (n : Int16)
  | int (n : Int32)
  | long (n : Int64)
  | float (x : Number.Single)
  | double (x : Number.Double)
  | decimal (d : Number.Decimal)
  | string (s : String)
  | date (d : Calendar.Date)
  | time (t : Calendar.Time)
  | timestamp (ts : Calendar.Timestamp)
  | uuid (u : Uuid)
  | bytes (bs : List UInt8)
deriving DecidableEq

namespace Value

/-- Whether a value is the SQL null. -/
def isNull : Value → Bool
  | null => true
  | _ => false

/-- The name of a value's type, as errors mention it. -/
def typeName : Value → String
  | null => "null"
  | bool _ => "bool"
  | short _ => "short"
  | int _ => "int"
  | long _ => "long"
  | float _ => "float"
  | double _ => "double"
  | decimal _ => "decimal"
  | string _ => "string"
  | date _ => "date"
  | time _ => "time"
  | timestamp _ => "timestamp"
  | uuid _ => "uuid"
  | bytes _ => "bytes"

/-- The kind that a literal of this value has when none is declared; null has none. -/
def kind? : Value → Option Kind
  | null => none
  | bool _ => some .boolean
  | short _ => some .short
  | int _ => some .int
  | long _ => some .long
  | float _ => some .float
  | double _ => some .double
  | decimal _ => some .decimal
  | string _ => some .string
  | date _ => some .date
  | time _ => some .time
  | timestamp _ => some .timestamp
  | uuid _ => some .uuid
  | bytes _ => some .bytes

/-- Equality of values: structural, except that decimals are compared as numbers. -/
def same : Value → Value → Bool
  | decimal a, decimal b => a.same b
  | a, b => decide (a = b)

/-- The text of a value in a description. -/
def text : Value → String
  | null => "NULL"
  | bool b => if b then "true" else "false"
  | short n => toString n.toInt
  | int n => toString n.toInt
  | long n => toString n.toInt
  | float x => x.text
  | double x => x.text
  | decimal d => d.text
  | string s => "'" ++ s ++ "'"
  | date d => d.text
  | time t => t.text
  | timestamp ts => ts.text
  | uuid u => u.text
  | bytes bs => "0x" ++ Text.hexLower bs

/-- Equality of values is reflexive: a NaN equals itself. -/
theorem same_self (v : Value) : v.same v = true := by
  cases v <;> simp [same, Number.Decimal.same]

end Value
end SqlCompiler
