import SqlCompiler.Dialect.Basic

/-!
# The built-in dialects

Seven databases, each described by what sets it apart.

## What is here

* `Dialect.postgres`, `mysql`, `sqlite`, `h2`, `derby`, `access`, `sqlserver`.
* `Database` — their names and the other names by which they are found.
-/

set_option autoImplicit false
namespace SqlCompiler

namespace Dialect

/-- PostgreSQL, with or without triggers that remove large objects together with their rows. -/
def postgresWith (largeObjectTriggers : Bool) : Dialect where
  name := "postgres"
  types := TypeTable.standard
    |>.set (.renamed .double "DOUBLE PRECISION")
    |>.set .bytea
    |>.set (.renamed .blob "lo")
  spelling
    | .database => .constant "current_database()"
    | .user => .constant "current_user"
    | f => .standard f
  nullKeys := .native
  sequences := { next := "nextval(", current := "currval(", asText := true }
  tables := {
    autoIncrement := .typeName fun
      | .short => some "SMALLSERIAL"
      | .int => some "SERIAL"
      | .long => some "BIGSERIAL"
      | _ => none
    largeObjectTriggers }

/-- PostgreSQL. -/
def postgres : Dialect := postgresWith true

/-- MySQL.  The largest row count stands for a limit that does not limit. -/
def mysql : Dialect where
  name := "mysql"
  quote := .backquotes
  lacks := [.sequence, .sequenceCurr, .sequenceMin, .sequenceMax, .sequenceCycle,
    .returnInsertOther]
  types := TypeTable.standard |>.set .textUuid |>.set (.renamed .blob "LONGBLOB")
  spelling
    | .concat => .call "concat"
    | f => .standard f
  nullKeys := .isnull
  paging := .limit (some "18446744073709551615")
  tables := { autoIncrement := .clause " AUTO_INCREMENT", dropForeignKey := "drop foreign key" }

/-- SQLite.  Constraints cannot be added to a table later, so foreign keys stand inside it. -/
def sqlite : Dialect where
  name := "sqlite"
  lacks := [.sequence, .sequenceCurr, .sequenceMin, .sequenceMax, .sequenceCycle,
    .functionDatabase, .functionUser, .typeBigDecimal, .typeBlob, .returnInsertOther,
    .mutableCursor]
  types := TypeTable.standard
    |>.set (.numericBoolean TypeCode.integer "INTEGER")
    |>.set .textUuid
  paging := .limit (some "-1")
  tables := {
    autoIncrement := .definition " INTEGER PRIMARY KEY AUTOINCREMENT"
    inlineForeignKeys := true }

/-- H2. -/
def h2 : Dialect where
  name := "h2"
  lacks := [.returnInsertOther]
  nullKeys := .native
  tables := { autoIncrement := .clause " AUTO_INCREMENT" }

/-- Apache Derby.  Every query has a from clause, and every sequence a type. -/
def derby : Dialect where
  name := "derby"
  lacks := [.sequenceCurr, .functionDatabase, .pagingNested, .returnInsertOther]
  types := TypeTable.standard |>.set (.numericBoolean TypeCode.smallint "SMALLINT")
  spelling
    | .modulo => .call "mod"
    | .user => .constant "current_user"
    | f => .standard f
  paging := .rows
  emptyFrom := " from sysibm.sysdummy1"
  tables := {
    sequenceType := fun
      | .short => " as SMALLINT"
      | .int => " as INTEGER"
      | _ => " as BIGINT" }

/-- Microsoft Access. -/
def access : Dialect where
  name := "access"
  quote := .brackets
  lacks := [.sequence, .sequenceCurr, .sequenceMin, .sequenceMax, .sequenceCycle, .pagingNested,
    .pagingDrop, .functionDatabase, .functionUser, .columnDefaults, .typeBigDecimal, .typeBlob,
    .returnInsertOther, .mutableCursor, .likeEscape]
  types := TypeTable.standard
    |>.set (.numericBoolean TypeCode.bit "YESNO")
    |>.set (.datetime .date)
    |>.set (.datetime .time)
    |>.set (.datetime .timestamp)
    |>.set .textUuid
  spelling
    | .concat => .operator "&"
    | .modulo => .operator "mod"
    | .length => .call "len"
    | .lower => .call "lcase"
    | .upper => .call "ucase"
    | .currentDate => .constant "date()"
    | f => .standard f
  conditional := .switch
  nullKeys := .iif
  paging := .top
  numbersRows := false
  tables := { autoIncrement := .typeName fun _ => some "COUNTER" }

/-- Microsoft SQL Server. -/
def sqlserver : Dialect where
  name := "sqlserver"
  quote := .brackets
  lacks := [.sequenceCurr, .returnInsertOther]
  types := TypeTable.standard
    |>.set (.numericBoolean TypeCode.bit "BIT")
    |>.set (.renamed .double "FLOAT(53)")
    |>.set (.renamed .timestamp "DATETIME")
    |>.set (.renamed .uuid "UNIQUEIDENTIFIER")
    |>.set (.varbinary .bytes)
    |>.set (.varbinary .blob)
  spelling
    | .concat => .operator "+"
    | .length => .call "len"
    | .database => .constant "db_name()"
    | .user => .constant "suser_sname()"
    | .currentDate => .constant "cast(getdate() as date)"
    | f => .standard f
  paging := .numbered
  tables := { autoIncrement := .clause " IDENTITY" }

end Dialect

/-- A database with a built-in dialect. -/
inductive Database where
  | postgres
  | mysql
  | sqlite
  | h2
  | derby
  | access
  | sqlserver
deriving DecidableEq, Repr

namespace Database

/-- Every database with a built-in dialect. -/
def all : List Database :=
  [postgres, mysql, sqlite, h2, derby, access, sqlserver]

/-- The name of a database. -/
def name : Database → String
  | postgres => "postgres"
  | mysql => "mysql"
  | sqlite => "sqlite"
  | h2 => "h2"
  | derby => "derby"
  | access => "access"
  | sqlserver => "sqlserver"

/-- The dialect of a database. -/
def dialect : Database → Dialect
  | postgres => .postgres
  | mysql => .mysql
  | sqlite => .sqlite
  | h2 => .h2
  | derby => .derby
  | access => .access
  | sqlserver => .sqlserver

/-- The database with exactly this name. -/
def ofName? (s : String) : Option Database :=
  all.find? (·.name == s)

/-- The database with this name or one of its other names, in letters of either case. -/
def find (s : String) : Except Error Database :=
  let lower := s.map Char.toLower
  match lower with
  | "postgresql" | "pg" => .ok postgres
  | "mssql" => .ok sqlserver
  | _ =>
    match ofName? lower with
    | some database => .ok database
    | none => .error (.config (.unknownDialect lower))

end Database
end SqlCompiler
