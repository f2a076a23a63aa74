import SqlCompiler.Scalar.Value

/-!
# Tables and sequences

What a database is made of: tables with their columns, keys and indexes, and sequences.
-/

set_option autoImplicit false
namespace SqlCompiler
namespace Schema

/-- A column of a table. -/
structure Column where
  name : String
  kind : Kind
  nullable : Bool := false
  primaryKey : Bool := false
  autoIncrement : Bool := false
  default : Option Value := none
  /-- The column type as it is to be written, instead of the one that belongs to the kind. -/
  typeName : Option String := none
deriving DecidableEq

/-- A named primary key of one or more columns. -/
structure PrimaryKey where
  name : String
  columns : List String
deriving DecidableEq, Repr

/-- What happens to the rows that refer to a row. -/
inductive Action where
  | noAction
  | restrict
  | cascade
  | setNull
  | setDefault
deriving DecidableEq, Repr

namespace Action

/-- Every action. -/
def all : List Action :=
  [noAction, restrict, cascade, setNull, setDefault]

/-- The words for an action. -/
def words : Action → String
  | noAction => "NO ACTION"
  | restrict => "RESTRICT"
  | cascade => "CASCADE"
  | setNull => "SET NULL"
  | setDefault => "SET DEFAULT"

/-- The name of an action in the stored form of a table. -/
def name : Action → String
  | noAction => "no_action"
  | restrict => "restrict"
  | cascade => "cascade"
  | setNull => "set_null"
  | setDefault => "set_default"

/-- The action with a given name. -/
def ofName? (s : String) : Option Action :=
  all.find? (·.name == s)

end Action

/-- A foreign key. -/
structure ForeignKey where
  name : String
  columns : List String
  targetTable : String
  targetColumns : List String
  onUpdate : Action := .noAction
  onDelete : Action := .noAction
deriving DecidableEq, Repr

/-- An index. -/
structure Index where
  name : String
  columns : List String
  unique : Bool := false
deriving DecidableEq, Repr

/-- A table and everything that is created together with it. -/
structure Table where
  name : String
  columns : List Column
  primaryKey : Option PrimaryKey := none
  foreignKeys : List ForeignKey := []
  indexes : List Index := []
deriving DecidableEq

/-- The first column with a given name. -/
def Table.column? (t : Table) (name : String) : Option Column :=
  t.columns.find? (·.name == name)

/-- A sequence. -/
structure Sequence where
  name : String
  kind : Kind := .long
  start : Option Int64 := none
  increment : Option Int64 := none
  min : Option Int64 := none
  max : Option Int64 := none
  cycle : Bool := false
deriving DecidableEq

end Schema
end SqlCompiler
