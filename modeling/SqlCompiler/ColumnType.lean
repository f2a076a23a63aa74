import SqlCompiler.Cursor
import SqlCompiler.Scalar.Coercion
import SqlCompiler.Scalar.Inline
import SqlCompiler.Text.Blank

/-!
# Column types

How a database keeps the values of a kind: the name and the code of the column type, what a value
becomes in a cell and a cell when it is read, and how a constant is written inline.

## What is here

* `ColumnType` — the types, with `toCell`, `fromCell` and `inline`.
* `ColumnType.set`, `setOption`, `next`, `nextOption`, `update`, `updateOption` — values bound to
  a statement, and read from or written to a row.
* `TypeTable` — one column type for each kind.
-/

set_option autoImplicit false
namespace SqlCompiler

/-! ## Codes

The numbers by which column types are known to database drivers. -/

namespace TypeCode

def bit : Int32 := -7
def smallint : Int32 := 5
def integer : Int32 := 4
def bigint : Int32 := -5
def real : Int32 := 7
def double : Int32 := 8
def decimal : Int32 := 3
def char : Int32 := 1
def varchar : Int32 := 12
def date : Int32 := 91
def time : Int32 := 92
def timestamp : Int32 := 93
def binary : Int32 := -2
def varbinary : Int32 := -3
def blob : Int32 := 2004
def boolean : Int32 := 16
def other : Int32 := 1111

end TypeCode

/-- The column type of a kind. -/
inductive ColumnType where
  /-- Values are kept and written in the usual way. -/
  | standard (kind : Kind) (code : Int32) (name : String)
  /-- Booleans are kept as the integers zero and one. -/
  | numericBoolean (code : Int32) (name : String)
  /-- Identifiers are kept as their hyphenated text. -/
  | textUuid
  /-- Bytes are written as an escaped text. -/
  | bytea
  /-- Bytes are written in hexadecimal without quotes. -/
  | varbinary (kind : Kind)
  /-- Dates and times are written between number signs, without fractions of a second. -/
  | datetime (kind : Kind)
deriving DecidableEq, Repr

namespace ColumnType

/-- The kind whose values the type keeps. -/
def kind : ColumnType → Kind
  | standard kind _ _ => kind
  | numericBoolean _ _ => .boolean
  | textUuid => .uuid
  | bytea => .bytes
  | varbinary kind => kind
  | datetime kind => kind

/-- The code of the type. -/
def code : ColumnType → Int32
  | standard _ code _ => code
  | numericBoolean code _ => code
  | textUuid => TypeCode.char
  | bytea => TypeCode.binary
  | varbinary _ => TypeCode.varbinary
  | datetime .date => TypeCode.date
  | datetime .time => TypeCode.time
  | datetime _ => TypeCode.timestamp

/-- The name of the type in a column definition. -/
def name : ColumnType → String
  | standard _ _ name => name
  | numericBoolean _ name => name
  | textUuid => "CHAR(36)"
  | bytea => "BYTEA"
  | varbinary _ => "VARBINARY(MAX)"
  | datetime _ => "DATETIME"

/-- The usual type of a kind. -/
def ofKind (kind : Kind) : ColumnType :=
  match kind with
  | .boolean => standard kind TypeCode.boolean "BOOLEAN"
  | .short => standard kind TypeCode.smallint "SMALLINT"
  | .int => standard kind TypeCode.integer "INTEGER"
  | .long => standard kind TypeCode.bigint "BIGINT"
  | .float => standard kind TypeCode.real "REAL"
  | .double => standard kind TypeCode.double "DOUBLE"
  | .decimal => standard kind TypeCode.decimal "DECIMAL(21,2)"
  | .string => standard kind TypeCode.varchar "VARCHAR(254)"
  | .date => standard kind TypeCode.date "DATE"
  | .time => standard kind TypeCode.time "TIME"
  | .timestamp => standard kind TypeCode.timestamp "TIMESTAMP"
  | .uuid => standard kind TypeCode.other "UUID"
  | .bytes => standard kind TypeCode.blob "BLOB"
  | .blob => standard kind TypeCode.blob "BLOB"

/-- The usual type of a kind under another name. -/
def renamed (kind : Kind) (name : String) : ColumnType :=
  standard kind (ofKind kind).code name

/-- The cell that keeps a value. -/
def toCell (c : ColumnType) (v : Value) : Except Error Value :=
  match c with
  | numericBoolean _ _ =>
    match v with
    | .null => .ok .null
    | .bool b => .ok (.int (if b then 1 else 0))
    | v => .error (v.mismatch .boolean)
  | textUuid => do
    match ← v.coerce .uuid with
    | .uuid u => return .string u.text
    | w => return w
  | c => v.coerce c.kind

/-- The value that a cell keeps. -/
def fromCell (c : ColumnType) (cell : Value) : Except Error Value :=
  match c with
  | numericBoolean _ _ =>
    match cell with
    | .null => .ok .null
    | .bool b => .ok (.bool b)
    | .short n => .ok (.bool (n != 0))
    | .int n => .ok (.bool (n != 0))
    | .long n => .ok (.bool (n != 0))
    | v => .error (v.mismatch .boolean)
  | textUuid =>
    match cell with
    | .string s =>
      match Uuid.read? (Text.trim s) with
      | some u => .ok (.uuid u)
      | none => .error (cell.mismatch .uuid)
    | v => v.coerce .uuid
  | c => cell.coerce c.kind

/-- A text between number signs. -/
def hashed (s : String) : String :=
  "#" ++ s ++ "#"

/-- The text of a value inside a statement. -/
def inline (c : ColumnType) (v : Value) : Except Error String :=
  match c with
  | standard kind _ _ => do (← v.coerce kind).inline kind
  | numericBoolean _ _ => do
    match ← c.toCell v with
    | .int n => return toString n.toInt
    | _ => return "null"
  | textUuid => do (← v.coerce .uuid).inline .uuid
  | bytea => do
    match ← v.coerce .bytes with
    | .bytes bs => return Value.quoteText ("\\x" ++ Text.hexLower bs) ++ "::bytea"
    | w => w.inline .bytes
  | varbinary kind => do
    match ← v.coerce kind with
    | .bytes bs => return "0x" ++ Text.hexUpper bs
    | w => w.inline kind
  | datetime kind => do
    match ← v.coerce kind with
    | .date d => return hashed d.text
    | .time t => return hashed t.clock
    | .timestamp ts => return hashed (ts.date.text ++ " " ++ ts.time.clock)
    | _ => return "null"

/-! ## Values in parameters and rows -/

/-- Binds a value that must not be null. -/
def set (c : ColumnType) (v : Value) : Bind Unit := do
  if v.isNull then throw (.unexpectedNull (← get).length)
  Parameters.add (.value (← MonadExcept.ofExcept (c.toCell v)))

/-- Binds a value; a missing value or null is bound as a null of this type. -/
def setOption (c : ColumnType) : Option Value → Bind Unit
  | some v => if v.isNull then Parameters.add (.null c.code) else c.set v
  | none => Parameters.add (.null c.code)

/-- Reads the next cell, which must not be null. -/
def next (c : ColumnType) : RowStep Value := do
  let position := (← get).position
  match ← Row.next with
  | .null => throw (.unexpectedNull position)
  | cell => MonadExcept.ofExcept (c.fromCell cell)

/-- Reads the next cell, which may be null. -/
def nextOption (c : ColumnType) : RowStep (Option Value) := do
  match ← Row.next with
  | .null => return none
  | cell => return some (← MonadExcept.ofExcept (c.fromCell cell))

/-- Replaces the next cell by a value that must not be null. -/
def update (c : ColumnType) (v : Value) : RowStep Unit := do
  if v.isNull then throw (.unexpectedNull (← get).position)
  Row.update (← MonadExcept.ofExcept (c.toCell v))

/-- Replaces the next cell by a value or null. -/
def updateOption (c : ColumnType) : Option Value → RowStep Unit
  | some v => if v.isNull then Row.update .null else c.update v
  | none => Row.update .null

/-- The usual type of a kind is a type of that kind. -/
@[simp]
theorem kind_ofKind (k : Kind) : (ofKind k).kind = k := by
  cases k <;> rfl

end ColumnType

/-- A column type for each kind. -/
structure TypeTable where
  column : Kind → ColumnType
  kind_column : ∀ k, (column k).kind = k

namespace TypeTable

/-- The usual types. -/
def standard : TypeTable where
  column := ColumnType.ofKind
  kind_column := ColumnType.kind_ofKind

/-- The table with another type for that type's kind. -/
def set (t : TypeTable) (c : ColumnType) : TypeTable where
  column k := if k = c.kind then c else t.column k
  kind_column k := by
    split
    · next h => exact h.symm
    · exact t.kind_column k

end TypeTable
end SqlCompiler
