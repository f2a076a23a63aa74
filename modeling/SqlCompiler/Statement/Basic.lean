import SqlCompiler.Layout.Basic
import SqlCompiler.Query.Scope
import SqlCompiler.Statement.Rendering

/-!
# Statements

A statement is a list of pieces together with what its caller has to know: the number of columns
of the result, as far as it is known, and the number of rows to skip.

## What is here

* `Statement`, with `Statement.sql`, `Statement.setters` and `Statement.parameters`.
* `Statement.verify` — whether a layout fits the result.
* `Query.compile` — the select statement of a query.
* `Target` — the table that a statement without a result works on.
* `Query.compileDelete` — the delete statement of a query.
-/

set_option autoImplicit false
namespace SqlCompiler

/-- A statement. -/
structure Statement where
  quote : Text.Quote
  pieces : List Piece
  /-- The number of columns of the result, if the projection names them all. -/
  columnCount : Option Nat := none
  /-- The number of rows at the beginning of the result that the caller has to drop. -/
  skipRows : UInt64 := 0

/-- Binds what is bound to the given placeholders, in their order. -/
def bindAll (setters : List Setter) (arguments : List Value) : Bind Unit :=
  setters.forM fun s => s.bind arguments

namespace Statement

/-- The text of a statement. -/
def sql (s : Statement) : String :=
  Piece.joined s.quote s.pieces

/-- What is bound to the placeholders of a statement, in their order. -/
def setters (s : Statement) : List Setter :=
  Piece.setters s.pieces

/-- The parameters of a statement for the given arguments. -/
def parameters (s : Statement) (arguments : List Value) : Except Error Parameters :=
  match (bindAll s.setters arguments).run [] with
  | .ok _ ps => .ok ps
  | .error e _ => .error e

/-- Checks that a layout has as many columns as the result, if their number is known. -/
def verify (s : Statement) (l : Layout) : Except Error Unit :=
  match s.columnCount with
  | some expected =>
    if expected = l.width then .ok () else .error (.columnCount expected l.width)
  | none => .ok ()

end Statement

namespace Query

/-- The number of columns that a query yields, if no whole row is among them. -/
def columnCount (q : Query) : Option Nat :=
  match q.projection with
  | none => none
  | some p =>
    let columns := Layout.columnsOf p
    if columns.any Node.isRow then none else some columns.length

/-- Runs the writing of a statement. -/
def run (body : Emit Unit) : Except Error Context :=
  match body.run {} with
  | .ok _ c => .ok c
  | .error e _ => .error e

/-- The select statement of a query. -/
def compile (d : Dialect) (q : Query) : Except Error Statement := do
  checkScope q
  let c ← run (write d q)
  return {
    quote := d.quote
    pieces := c.pieces.toList
    columnCount := columnCount q
    skipRows := c.skipRows }

end Query

/-- The table that a statement without a result works on, and the symbol for its rows. -/
structure Target where
  binder : Symbol
  table : String

namespace Target

/-- The only table of a query that has nothing but filters besides. -/
def ofQuery (statement : String) (q : Query) : Except Error Target := do
  match q.generators with
  | [⟨binder, .mk (.table table)⟩] =>
    if q.groupBy.isSome || !q.orderBy.isEmpty || q.isPaged then
      throw (.malformed (.onlyFilters statement))
    return ⟨binder, table⟩
  | _ => throw (.malformed (.notOneTable statement))

/-- The names of columns, which have to be columns of the given source if there is one. -/
def columnNames (statement : String) (source : Option Symbol) (nodes : List Node) :
    Except Error (List String) :=
  nodes.mapM fun n =>
    match n.shape with
    | .column s name =>
      if source.all (· == s) then .ok name
      else .error (.malformed (.notAColumn statement n.shape.name))
    | s => .error (.malformed (.notAColumn statement s.name))

/-- Writes something about the table, and the filters after it.  Columns of the table are
qualified by its name. -/
def write (d : Dialect) (t : Target) (beginning : List Piece) (q : Query) : Emit Unit := do
  Emit.bindQualifier t.binder (.table t.table)
  beginning.forM Emit.piece
  Render.filters (Query.rendering d q)

end Target

/-- The delete statement that removes the rows of a query's table. -/
def Query.compileDelete (d : Dialect) (q : Query) : Except Error Statement := do
  checkScope q
  let target ← Target.ofQuery "delete" q
  let c ← run (target.write d [.words "delete from ", .name target.table] q)
  return { quote := d.quote, pieces := c.pieces.toList }

end SqlCompiler
