import SqlCompiler.Statement.Basic

/-!
# Insert statements

A statement that adds one row to a table, written from a layout whose columns are plain columns.
-/

set_option autoImplicit false
namespace SqlCompiler

/-- A column handed back after an insert. -/
inductive Returned where
  /-- A generated key. -/
  | key (column : String)
  /-- Any other column. -/
  | column (column : String)
deriving DecidableEq, Repr

/-- An insert statement. -/
structure Insert where
  quote : Text.Quote
  table : String
  columns : List String
  returned : List Returned := []

namespace Insert

/-- The insert statement that writes the columns of a layout. -/
def ofLayout (d : Dialect) (table : String) (l : Layout) : Except Error Insert := do
  let columns ← Target.columnNames "insert" none l.nodes
  if columns.isEmpty then throw (.malformed .nothingToInsert)
  return { quote := d.quote, table, columns }

/-- The pieces of the statement. -/
def pieces (i : Insert) : List Piece :=
  [.words "insert into ", .name i.table, .words " ("]
    ++ Piece.separated (.words ", ") (i.columns.map fun c => [.name c])
    ++ [.words ") values ("]
    ++ Piece.separated (.words ", ") (i.columns.map fun _ => [.input])
    ++ [.words ")"]

/-- The text of the statement. -/
def sql (i : Insert) : String :=
  Piece.joined i.quote i.pieces

/-- The statement that also hands back a column, where the dialect can do that. -/
def returning (d : Dialect) (r : Returned) (i : Insert) : Except Error Insert := do
  match r with
  | .key _ => d.require .returnInsertKey
  | .column _ => d.require .returnInsertOther
  return { i with returned := i.returned ++ [r] }

/-- The parameters for one row, bound through a layout. -/
def parameters (d : Dialect) (l : Layout) (v : Datum) (i : Insert) : Except Error Parameters := do
  let ps ← l.parameters d (some v)
  if ps.length = i.columns.length then return ps
  throw (.columnCount i.columns.length ps.length)

end Insert
end SqlCompiler
