import SqlCompiler.Schema.Basic
import SqlCompiler.Statement.Piece

/-!
# Schema changes

The statements that create and remove tables and sequences.  A change is first of all what it does
to the schema; its text follows from that and the dialect.

## What is here

* `Change` — one statement, with `Change.text`.
* `columnType`, `columnDefinition` — how a column is defined.
* `Table.create`, `Table.drop`, `Sequence.create`, `Sequence.drop` — the changes in their order.
-/

set_option autoImplicit false
namespace SqlCompiler
namespace Schema

/-- A change of the schema. -/
inductive Change where
  /-- A new table with its columns, its primary key, and foreign keys of its own. -/
  | createTable (table : String) (columns : List (List Piece)) (primaryKey : Option PrimaryKey)
    (foreignKeys : List ForeignKey)
  | addForeignKey (table : String) (key : ForeignKey)
  | createIndex (table : String) (index : Index)
  /-- A trigger that looks after the large objects in a column. -/
  | createTrigger (trigger table column : String)
  | dropTrigger (trigger table : String)
  | dropForeignKey (table key : String)
  | dropTable (table : String)
  /-- A new sequence with its options in words. -/
  | createSequence (sequence : String) (options : String)
  | dropSequence (sequence : String)
deriving DecidableEq

/-- Names separated by commas. -/
def names (columns : List String) : List Piece :=
  Piece.separated (.words ", ") (columns.map fun c => [.name c])

/-- A primary key inside the definition of a table. -/
def PrimaryKey.pieces (k : PrimaryKey) : List Piece :=
  [.words "constraint ", .name k.name, .words " primary key ("] ++ names k.columns ++ [.words ")"]

/-- A foreign key as a constraint. -/
def ForeignKey.pieces (k : ForeignKey) : List Piece :=
  [.words "constraint ", .name k.name, .words " foreign key("] ++ names k.columns
    ++ [.words ") references ", .name k.targetTable, .words "("] ++ names k.targetColumns
    ++ [.words (") on update " ++ k.onUpdate.words ++ " on delete " ++ k.onDelete.words)]

namespace Change

/-- The pieces of a statement that makes a change. -/
def pieces (d : Dialect) : Change → List Piece
  | createTable table columns primaryKey foreignKeys =>
    [.words "create table ", .name table, .words " ("]
      ++ Piece.separated (.words ", ") (columns ++ primaryKey.toList.map PrimaryKey.pieces)
      ++ (foreignKeys.flatMap fun k => .words ", " :: k.pieces)
      ++ [.words ")"]
  | addForeignKey table key =>
    [.words "alter table ", .name table, .words " add "] ++ key.pieces
  | createIndex table index =>
    [.words (if index.unique then "create unique index " else "create index "), .name index.name,
      .words " on ", .name table, .words " ("] ++ names index.columns ++ [.words ")"]
  | createTrigger trigger table column =>
    [.words "create trigger ", .name trigger, .words " before update or delete on ", .name table,
      .words " for each row execute procedure lo_manage(", .name column, .words ")"]
  | dropTrigger trigger table =>
    [.words "drop trigger ", .name trigger, .words " on ", .name table]
  | dropForeignKey table key =>
    [.words "alter table ", .name table, .words (" " ++ d.tables.dropForeignKey ++ " "), .name key]
  | dropTable table => [.words "drop table ", .name table]
  | createSequence sequence options =>
    [.words "create sequence ", .name sequence, .words options]
  | dropSequence sequence => [.words "drop sequence ", .name sequence]

/-- The statement that makes a change. -/
def text (d : Dialect) (c : Change) : String :=
  Piece.joined d.quote (c.pieces d)

end Change

/-! ## Columns -/

variable (d : Dialect)

/-- The type of a column of its own kind, or the one it is given. -/
def standardType (c : Column) : Except Error String := do
  match c.kind with
  | .blob => d.require .typeBlob
  | .decimal => d.require .typeBigDecimal
  | _ => pure ()
  return c.typeName.getD (d.types.column c.kind).name

/-- The type of a column that numbers its rows by its type. -/
def incrementType? (c : Column) : Option String :=
  match d.tables.autoIncrement with
  | .typeName name => if c.autoIncrement && c.typeName.isNone then name c.kind else none
  | _ => none

/-- The type of a column. -/
def columnType (c : Column) : Except Error String :=
  match incrementType? d c with
  | some name => .ok name
  | none => standardType d c

/-- The definition of a column, clause by clause. -/
def standardDefinition (c : Column) : Except Error (List Piece) := do
  let type ← columnType d c
  let default ← c.default.mapM fun v => do
    d.require .columnDefaults
    (d.types.column c.kind).inline v
  let increment :=
    match d.tables.autoIncrement with
    | .clause text => if c.autoIncrement then text else ""
    | _ => ""
  return [.name c.name, .words (" " ++ type)]
    ++ (default.toList.flatMap fun v => [.words " DEFAULT ", .constant v])
    ++ [.words ((if c.nullable then "" else " NOT NULL") ++ increment
      ++ if c.primaryKey then " PRIMARY KEY" else "")]

/-- The definition of a column. -/
def columnDefinition (c : Column) : Except Error (List Piece) :=
  match d.tables.autoIncrement with
  | .definition text =>
    if c.autoIncrement then .ok [.name c.name, .words text] else standardDefinition d c
  | _ => standardDefinition d c

/-! ## Tables -/

/-- The columns whose large objects are looked after by triggers. -/
def triggerColumns (t : Table) : List Column :=
  if d.tables.largeObjectTriggers then t.columns.filter (·.kind == .blob) else []

/-- The name of the trigger for a column. -/
def triggerName (t : Table) (c : Column) : String :=
  t.name ++ "__" ++ c.name ++ "_lob"

/-- The changes that create a table: the table, its foreign keys, its indexes and its triggers. -/
def Table.create (t : Table) : Except Error (List Change) := do
  let columns ← t.columns.mapM (columnDefinition d)
  let inner := if d.tables.inlineForeignKeys then t.foreignKeys else []
  let added := if d.tables.inlineForeignKeys then [] else t.foreignKeys
  return .createTable t.name columns t.primaryKey inner
    :: added.map (.addForeignKey t.name)
    ++ t.indexes.map (.createIndex t.name)
    ++ (triggerColumns d t).map fun c => .createTrigger (triggerName t c) t.name c.name

/-- The changes that remove a table: its triggers, its foreign keys, and the table. -/
def Table.drop (t : Table) : List Change :=
  let added := if d.tables.inlineForeignKeys then [] else t.foreignKeys
  ((triggerColumns d t).map fun c => .dropTrigger (triggerName t c) t.name)
    ++ added.map (fun k => .dropForeignKey t.name k.name)
    ++ [.dropTable t.name]

/-! ## Sequences -/

/-- An option of a sequence. -/
def option (words : String) (n : Option Int64) : String :=
  match n with
  | some n => words ++ toString n.toInt
  | none => ""

/-- The changes that create a sequence. -/
def Sequence.create (s : Sequence) : Except Error (List Change) := do
  d.require .sequence
  if s.min.isSome then d.require .sequenceMin
  if s.max.isSome then d.require .sequenceMax
  if s.cycle then d.require .sequenceCycle
  let options := d.tables.sequenceType s.kind ++ option " start with " s.start
    ++ option " increment by " s.increment ++ option " minvalue " s.min
    ++ option " maxvalue " s.max ++ if s.cycle then " cycle" else ""
  return [.createSequence s.name options]

/-- The changes that remove a sequence. -/
def Sequence.drop (s : Sequence) : Except Error (List Change) := do
  d.require .sequence
  return [.dropSequence s.name]

end Schema
end SqlCompiler
