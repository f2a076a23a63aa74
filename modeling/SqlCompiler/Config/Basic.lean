import SqlCompiler.Dialect.Builtin
import SqlCompiler.Toml.Reader

/-!
# Configuration

The settings of the compiler: the database that statements are written for, whether statements are
logged, and whether triggers look after large objects.  They are kept in a TOML document, and a
setting that is not known or has the wrong type makes a configuration unreadable.
-/

set_option autoImplicit false
namespace SqlCompiler

/-- The settings of the compiler. -/
structure Config where
  database : Database := .postgres
  logSql : Bool := false
  largeObjectTriggers : Bool := true
deriving DecidableEq, Repr

namespace Config

/-- The dialect that a configuration asks for. -/
def dialect (c : Config) : Dialect :=
  match c.database with
  | .postgres => .postgresWith c.largeObjectTriggers
  | database => database.dialect

/-! ## Reading -/

/-- The truth value that a setting has. -/
def bool? : Toml → Option Bool
  | .bool b => some b
  | _ => none

/-- Whether a value is a table or an array without content. -/
def isEmpty : Toml → Bool
  | .table _ members => members.isEmpty
  | .array items => items.isEmpty
  | .tables elements => elements.isEmpty
  | _ => false

/-- The database that a setting names: by a text, or by a table whose only member has that name and
no content. -/
def database? : Toml → Option Database
  | .string name => Database.ofName? name
  | .table _ [(name, v)] => if isEmpty v then Database.ofName? name else none
  | _ => none

/-- Makes one setting about tables. -/
def setForTables? (c : Config) (name : String) (v : Toml) : Option Config :=
  match name with
  | "lob_triggers" => (bool? v).map fun largeObjectTriggers => { c with largeObjectTriggers }
  | _ => none

/-- Makes the settings about tables, by their names or in their order. -/
def setAllForTables? (c : Config) : Toml → Option Config
  | .table _ members => members.foldlM (fun c (name, v) => c.setForTables? name v) c
  | .array [] => some c
  | .array (v :: _) => c.setForTables? "lob_triggers" v
  | _ => none

/-- Makes one setting. -/
def set? (c : Config) (name : String) (v : Toml) : Option Config :=
  match name with
  | "dialect" => (database? v).map fun database => { c with database }
  | "log_sql" => (bool? v).map fun logSql => { c with logSql }
  | "ddl" => c.setAllForTables? v
  | _ => none

/-- Reads a configuration; a setting that is not made is as usual. -/
def read? (s : String) : Option Config := do
  let members ← Toml.read? s
  members.foldlM (fun c (name, v) => c.set? name v) {}

/-- Reads a configuration. -/
def read (s : String) : Except Error Config :=
  match read? s with
  | some c => .ok c
  | none => .error (.config .unreadable)

end Config
end SqlCompiler
