import SqlCompiler.ColumnType
import SqlCompiler.Dialect.Style
import SqlCompiler.Text.Quote

/-!
# Dialects

A dialect is everything the compiler has to know about a database: the capabilities it lacks, the
types of its columns, and its styles of writing.
-/

set_option autoImplicit false
namespace SqlCompiler

/-- A database dialect.  A field left out has the value that most databases agree on. -/
structure Dialect where
  name : String
  /-- The quotation marks around the names of tables, columns and sequences. -/
  quote : Text.Quote := .doubleQuotes
  lacks : List Capability := []
  types : TypeTable := .standard
  spelling : Function → Spelling := Spelling.standard
  conditional : Conditional := .cases
  nullKeys : NullKeys := .cases
  paging : Paging := .limit none
  /-- The clause of a query without generators. -/
  emptyFrom : String := ""
  /-- Rows can be numbered. -/
  numbersRows : Bool := true
  sequences : SequenceCall := {}
  tables : TableStyle := {}

namespace Dialect

/-- Whether a dialect has a capability. -/
def supports (d : Dialect) (c : Capability) : Bool :=
  !d.lacks.contains c

/-- Refuses what needs a capability that the dialect lacks. -/
def require (d : Dialect) (c : Capability) : Except Error Unit :=
  if d.supports c then .ok () else .error (.lacking c d.name)

/-- The capabilities of a dialect, in the order in which they are listed. -/
def capabilities (d : Dialect) : List Capability :=
  Capability.all.filter d.supports

/-- The capabilities that a dialect lacks, in the order in which they are listed. -/
def missing (d : Dialect) : List Capability :=
  Capability.all.filter fun c => !d.supports c

/-- A quoted name. -/
def quoteName (d : Dialect) (name : String) : String :=
  d.quote.write name

end Dialect
end SqlCompiler
