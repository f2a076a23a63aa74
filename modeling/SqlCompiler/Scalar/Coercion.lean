import SqlCompiler.Error
import SqlCompiler.Scalar.Value

/-!
# Coercion

Making a value one of a given kind.  Null belongs to every kind.  Integers become wider or narrower
ones as long as they fit, and decimals; narrow integers become floating-point values, which become
wider; the text of an identifier becomes the identifier.  Nothing else changes its type.
-/

set_option autoImplicit false
namespace SqlCompiler
namespace Value

/-- The integer that a value of an integer type is. -/
def integer? : Value → Option Int64
  | short n => some n.toInt64
  | int n => some n.toInt64
  | long n => some n
  | _ => none

/-- An integer as a short one, if it fits. -/
def shortOf? (n : Int64) : Option Int16 :=
  if Int16.minValue.toInt ≤ n.toInt ∧ n.toInt ≤ Int16.maxValue.toInt then some n.toInt16 else none

/-- An integer as one of 32 bits, if it fits. -/
def intOf? (n : Int64) : Option Int32 :=
  if Int32.minValue.toInt ≤ n.toInt ∧ n.toInt ≤ Int32.maxValue.toInt then some n.toInt32 else none

/-- The value of the given kind that a value other than null stands for. -/
def convert? : Kind → Value → Option Value
  | .boolean, bool b => some (bool b)
  | .short, v => (v.integer?.bind shortOf?).map short
  | .int, v => (v.integer?.bind intOf?).map int
  | .long, v => v.integer?.map long
  | .float, float x => some (float x)
  | .float, short n => some (float (.ofInt n.toInt))
  | .double, double x => some (double x)
  | .double, float x => some (double x.toDouble)
  | .double, short n => some (double (.ofInt n.toInt))
  | .double, int n => some (double (.ofInt n.toInt))
  | .decimal, decimal d => some (decimal d)
  | .decimal, v => v.integer?.map fun n => decimal (.ofInt64 n)
  | .string, string s => some (string s)
  | .date, date d => some (date d)
  | .time, time t => some (time t)
  | .timestamp, timestamp ts => some (timestamp ts)
  | .uuid, uuid u => some (uuid u)
  | .uuid, string s => (Uuid.read? s).map uuid
  | .bytes, bytes bs => some (bytes bs)
  | .blob, bytes bs => some (bytes bs)
  | _, _ => none

/-- The error for a value that is not of a kind. -/
def mismatch (kind : Kind) (v : Value) : Error :=
  .typeMismatch kind v.typeName

/-- A value made one of a kind. -/
def coerce (kind : Kind) : Value → Except Error Value
  | null => .ok null
  | v =>
    match convert? kind v with
    | some w => .ok w
    | none => .error (v.mismatch kind)

end Value
end SqlCompiler
