/-!
# Scalar kinds

The closed set of kinds that a column, a literal or a parameter can have.
-/

set_option autoImplicit false
namespace SqlCompiler

/-- The kind of a scalar.  `bytes` is binary data kept in the row, `blob` a large object. -/
inductive Kind where
  | boolean
  | short
  | int
  | long
  | float
  | double
  | decimal
  | string
  | date
  | time
  | timestamp
  | uuid
  | bytes
  | blob
deriving DecidableEq, Repr

namespace Kind

/-- Every kind, in the order of its index. -/
def all : List Kind :=
  [boolean, short, int, long, float, double, decimal, string, date, time, timestamp, uuid, bytes,
    blob]

/-- The position of a kind in `all`. -/
def index : Kind → Nat
  | boolean => 0
  | short => 1
  | int => 2
  | long => 3
  | float => 4
  | double => 5
  | decimal => 6
  | string => 7
  | date => 8
  | time => 9
  | timestamp => 10
  | uuid => 11
  | bytes => 12
  | blob => 13

/-- The name of a kind. -/
def name : Kind → String
  | boolean => "boolean"
  | short => "short"
  | int => "int"
  | long => "long"
  | float => "float"
  | double => "double"
  | decimal => "decimal"
  | string => "string"
  | date => "date"
  | time => "time"
  | timestamp => "timestamp"
  | uuid => "uuid"
  | bytes => "bytes"
  | blob => "blob"

/-- The kind with a given name. -/
def ofName? (s : String) : Option Kind :=
  all.find? (·.name == s)

/-- A kind is found under its own name. -/
theorem ofName?_name (k : Kind) : ofName? k.name = some k := by
  cases k <;> decide

end Kind
end SqlCompiler
