import SqlCompiler.Statement.Basic

/-!
# Update statements

A statement that sets the columns which a query projects, on the rows that its filters select.
The new values come first among its parameters, those of the filters after them.
-/

set_option autoImplicit false
namespace SqlCompiler

/-- An update statement. -/
structure Update where
  quote : Text.Quote
  pieces : List Piece
  columns : List String

namespace Update

/-- The nodes that a projection sets. -/
def targets (q : Query) : Except Error (List Node) :=
  match q.projection with
  | some (.mk (.product items)) => .ok items
  | some (.mk (.record fields)) => .ok (fields.map Field.value)
  | some (.mk (.column source name)) => .ok [.column source name]
  | _ => .error (.malformed .nothingToSet)

/-- The text of the statement. -/
def sql (u : Update) : String :=
  Piece.joined u.quote u.pieces

/-- What is bound to the placeholders of the filters. -/
def setters (u : Update) : List Setter :=
  Piece.setters u.pieces

/-- Binds the new values through a layout, and the arguments of the filters after them. -/
def bind (d : Dialect) (l : Layout) (v : Datum) (arguments : List Value) (u : Update) :
    Bind Unit := do
  l.bind d (some v)
  let count := (← get).length
  if count ≠ u.columns.length then throw (.columnCount u.columns.length count)
  bindAll u.setters arguments

/-- The parameters for one row and the arguments of the filters. -/
def parameters (d : Dialect) (l : Layout) (v : Datum) (arguments : List Value) (u : Update) :
    Except Error Parameters :=
  match (u.bind d l v arguments).run [] with
  | .ok _ ps => .ok ps
  | .error e _ => .error e

end Update

/-- The update statement that sets the columns which a query projects. -/
def Query.compileUpdate (d : Dialect) (q : Query) : Except Error Update := do
  checkScope q
  let target ← Target.ofQuery "update" q
  let columns ← Target.columnNames "update" (some target.binder) (← Update.targets q)
  let assignments := columns.map fun c => [.name c, .words " = ", .input]
  let beginning :=
    [.words "update ", .name target.table, .words " set "]
      ++ Piece.separated (.words ", ") assignments
  let c ← run (target.write d beginning q)
  return { quote := d.quote, pieces := c.pieces.toList, columns }

end SqlCompiler
