import SqlCompiler.Json.Scalar
import SqlCompiler.Schema.Basic

/-!
# Tables and sequences in JSON

The stored form of tables and sequences.
-/

set_option autoImplicit false
namespace SqlCompiler
namespace Schema

/-- A list of names. -/
def namesJson (names : List String) : Json :=
  .ofList .string names

/-- Reads a list of names. -/
def names? (j : Json) : Option (List String) :=
  j.list? Json.string?

namespace Column

/-- The stored form of a column. -/
def toJson (c : Column) : Json :=
  .object [("name", .string c.name), ("kind", c.kind.toJson), ("nullable", .bool c.nullable),
    ("primary_key", .bool c.primaryKey), ("auto_increment", .bool c.autoIncrement),
    ("default", .ofOption Value.toJson c.default), ("db_type", .ofOption .string c.typeName)]

/-- Reads a column. -/
def ofJson? (j : Json) : Option Column := do
  let fields ← j.fields?
    ["name", "kind", "nullable", "primary_key", "auto_increment", "default", "db_type"]
  let name ← fields.required? Json.string? "name"
  let kind ← fields.required? Kind.ofJson? "kind"
  let nullable ← fields.default? Json.bool? "nullable" false
  let primaryKey ← fields.default? Json.bool? "primary_key" false
  let autoIncrement ← fields.default? Json.bool? "auto_increment" false
  let default ← fields.optional? Value.ofJson? "default"
  let typeName ← fields.optional? Json.string? "db_type"
  some { name, kind, nullable, primaryKey, autoIncrement, default, typeName }

end Column

namespace PrimaryKey

/-- The stored form of a primary key. -/
def toJson (k : PrimaryKey) : Json :=
  .object [("name", .string k.name), ("columns", namesJson k.columns)]

/-- Reads a primary key. -/
def ofJson? (j : Json) : Option PrimaryKey := do
  let fields ← j.fields? ["name", "columns"]
  let name ← fields.required? Json.string? "name"
  let columns ← fields.required? names? "columns"
  some { name, columns }

end PrimaryKey

namespace ForeignKey

/-- The stored form of a foreign key. -/
def toJson (k : ForeignKey) : Json :=
  .object [("name", .string k.name), ("columns", namesJson k.columns),
    ("target_table", .string k.targetTable), ("target_columns", namesJson k.targetColumns),
    ("on_update", .string k.onUpdate.name), ("on_delete", .string k.onDelete.name)]

/-- Reads a foreign key. -/
def ofJson? (j : Json) : Option ForeignKey := do
  let fields ← j.fields?
    ["name", "columns", "target_table", "target_columns", "on_update", "on_delete"]
  let name ← fields.required? Json.string? "name"
  let columns ← fields.required? names? "columns"
  let targetTable ← fields.required? Json.string? "target_table"
  let targetColumns ← fields.required? names? "target_columns"
  let onUpdate ← fields.default? (Json.choice? Action.ofName?) "on_update" .noAction
  let onDelete ← fields.default? (Json.choice? Action.ofName?) "on_delete" .noAction
  some { name, columns, targetTable, targetColumns, onUpdate, onDelete }

end ForeignKey

namespace Index

/-- The stored form of an index. -/
def toJson (i : Index) : Json :=
  .object [("name", .string i.name), ("columns", namesJson i.columns), ("unique", .bool i.unique)]

/-- Reads an index. -/
def ofJson? (j : Json) : Option Index := do
  let fields ← j.fields? ["name", "columns", "unique"]
  let name ← fields.required? Json.string? "name"
  let columns ← fields.required? names? "columns"
  let unique ← fields.default? Json.bool? "unique" false
  some { name, columns, unique }

end Index

namespace Table

/-- The stored form of a table. -/
def toJson (t : Table) : Json :=
  .object [("name", .string t.name), ("columns", .ofList Column.toJson t.columns),
    ("primary_key", .ofOption PrimaryKey.toJson t.primaryKey),
    ("foreign_keys", .ofList ForeignKey.toJson t.foreignKeys),
    ("indexes", .ofList Index.toJson t.indexes)]

/-- Reads a table. -/
def ofJson? (j : Json) : Option Table := do
  let fields ← j.fields? ["name", "columns", "primary_key", "foreign_keys", "indexes"]
  let name ← fields.required? Json.string? "name"
  let columns ← fields.required? (Json.list? Column.ofJson?) "columns"
  let primaryKey ← fields.optional? PrimaryKey.ofJson? "primary_key"
  let foreignKeys ← fields.default? (Json.list? ForeignKey.ofJson?) "foreign_keys" []
  let indexes ← fields.default? (Json.list? Index.ofJson?) "indexes" []
  some { name, columns, primaryKey, foreignKeys, indexes }

end Table

namespace Sequence

/-- The stored form of a sequence. -/
def toJson (s : Sequence) : Json :=
  let number (n : Int64) : Json := .int n.toInt
  .object [("name", .string s.name), ("kind", s.kind.toJson), ("start", .ofOption number s.start),
    ("increment", .ofOption number s.increment), ("min", .ofOption number s.min),
    ("max", .ofOption number s.max), ("cycle", .bool s.cycle)]

/-- Reads a sequence. -/
def ofJson? (j : Json) : Option Sequence := do
  let fields ← j.fields? ["name", "kind", "start", "increment", "min", "max", "cycle"]
  let name ← fields.required? Json.string? "name"
  let kind ← fields.default? Kind.ofJson? "kind" .long
  let start ← fields.optional? Json.int64? "start"
  let increment ← fields.optional? Json.int64? "increment"
  let min ← fields.optional? Json.int64? "min"
  let max ← fields.optional? Json.int64? "max"
  let cycle ← fields.default? Json.bool? "cycle" false
  some { name, kind, start, increment, min, max, cycle }

end Sequence
end Schema
end SqlCompiler
