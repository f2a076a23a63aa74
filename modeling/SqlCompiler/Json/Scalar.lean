import SqlCompiler.Function
import SqlCompiler.Json.Fields
import SqlCompiler.Calendar.Reader
import SqlCompiler.Query.Basic
import SqlCompiler.Scalar.Value
import SqlCompiler.SortOrder
import SqlCompiler.Symbol

/-!
# Scalars in JSON

Values, symbols, functions and sort orders in the stored form of a query.  A floating-point value
is a number and is read from a whole number too; infinities and NaNs cannot be stored and are
written as null.  Decimals, dates, times and identifiers are texts.
-/

set_option autoImplicit false
namespace SqlCompiler

namespace Kind

/-- A kind is stored as its name. -/
def toJson (k : Kind) : Json :=
  .string k.name

/-- Reads a kind. -/
def ofJson? (j : Json) : Option Kind :=
  j.choice? ofName?

end Kind

namespace Symbol

/-- The stored form of a symbol. -/
def toJson (s : Symbol) : Json :=
  .object [("slot", .int s.slot.toNat), ("generation", .int s.generation.toNat)]

/-- Reads a symbol. -/
def ofJson? (j : Json) : Option Symbol := do
  let fields ← j.fields? ["slot", "generation"]
  let slot ← fields.required? Json.uint32? "slot"
  let generation ← fields.required? Json.uint32? "generation"
  some ⟨slot, generation⟩

end Symbol

namespace Value

/-- A finite number; anything else is null. -/
def finite (x : Number.Double) : Json :=
  if x.isFinite then .float x else .null

/-- The stored form of a value. -/
def toJson : Value → Json
  | null => .string "Null"
  | bool b => .tagged "Bool" (.bool b)
  | short n => .tagged "Short" (.int n.toInt)
  | int n => .tagged "Int" (.int n.toInt)
  | long n => .tagged "Long" (.int n.toInt)
  | float x => .tagged "Float" (finite x.toDouble)
  | double x => .tagged "Double" (finite x)
  | decimal d => .tagged "Decimal" (.string d.text)
  | string s => .tagged "String" (.string s)
  | date d => .tagged "Date" (.string d.text)
  | time t => .tagged "Time" (.string t.text)
  | timestamp ts => .tagged "Timestamp" (.string ts.stored)
  | uuid u => .tagged "Uuid" (.string u.text)
  | bytes bs => .tagged "Bytes" (.ofList (fun b => .int b.toNat) bs)

/-- Reads a 32-bit floating-point number. -/
def single? : Json → Option Number.Single
  | .int n => some (.ofInt n)
  | .float x => some x.toSingle
  | _ => none

/-- Reads a 64-bit floating-point number. -/
def double? : Json → Option Number.Double
  | .int n => some (.ofInt n)
  | .float x => some x
  | _ => none

/-- Reads a decimal, from its text or from a number. -/
def decimal? : Json → Option Number.Decimal
  | .string s => Number.Decimal.read? s
  | .int n => Number.Decimal.ofParts? n 0
  | .float x => Number.Decimal.read? x.text
  | _ => none

/-- Reads what belongs to a value other than null. -/
def content? : String → Json → Option Value
  | "Bool", j => j.bool?.map bool
  | "Short", j => j.int16?.map short
  | "Int", j => j.int32?.map int
  | "Long", j => j.int64?.map long
  | "Float", j => (single? j).map float
  | "Double", j => (double? j).map double
  | "Decimal", j => (decimal? j).map decimal
  | "String", j => j.string?.map string
  | "Date", j => (j.string?.bind Calendar.Date.read?).map date
  | "Time", j => (j.string?.bind Calendar.Time.read?).map time
  | "Timestamp", j => (j.string?.bind Calendar.Timestamp.read?).map timestamp
  | "Uuid", j => (j.string?.bind Uuid.read?).map uuid
  | "Bytes", j => (j.list? Json.uint8?).map bytes
  | "Null", .null => some null
  | _, _ => none

/-- Reads a value. -/
def ofJson? (j : Json) : Option Value := do
  match ← j.variant? with
  | ("Null", none) => some null
  | (name, some j) => content? name j
  | _ => none

end Value

namespace Function

/-- The stored form of a function. -/
def toJson : Function → Json
  | named name => .tagged "Named" (.string name)
  | f => .string (f.name?.getD "")

/-- Reads a function. -/
def ofJson? (j : Json) : Option Function := do
  match ← j.variant? with
  | ("Named", some j) => j.string?.map named
  | _ => j.choice? ofName?

end Function

namespace SortOrder

/-- The name of a direction. -/
def directionName : Direction → String
  | .ascending => "asc"
  | .descending => "desc"

/-- The direction with a name. -/
def direction? : String → Option Direction
  | "asc" => some .ascending
  | "desc" => some .descending
  | _ => none

/-- The name of a placement of nulls. -/
def nullsName : NullPlacement → String
  | .unspecified => "default"
  | .first => "first"
  | .last => "last"

/-- The placement of nulls with a name. -/
def nulls? : String → Option NullPlacement
  | "default" => some .unspecified
  | "first" => some .first
  | "last" => some .last
  | _ => none

/-- The stored form of a sort order. -/
def toJson (o : SortOrder) : Json :=
  .object [("direction", .string (directionName o.direction)),
    ("nulls", .string (nullsName o.nulls))]

/-- Reads a sort order; a part left out is as in the usual one. -/
def ofJson? (j : Json) : Option SortOrder := do
  let fields ← j.fields? ["direction", "nulls"]
  let direction ← fields.default? (Json.choice? direction?) "direction" .ascending
  let nulls ← fields.default? (Json.choice? nulls?) "nulls" .unspecified
  some ⟨direction, nulls⟩

end SortOrder

namespace Literal

/-- The stored form of a constant. -/
def toJson (c : Literal) : Json :=
  .object [("kind", c.kind.toJson), ("value", c.value.toJson), ("bind", .bool c.bind)]

/-- Reads a constant. -/
def ofJson? (j : Json) : Option Literal := do
  let fields ← j.fields? ["kind", "value", "bind"]
  let kind ← fields.required? Kind.ofJson? "kind"
  let value ← fields.required? Value.ofJson? "value"
  let bind ← fields.default? Json.bool? "bind" false
  some { kind, value, bind }

end Literal
end SqlCompiler
