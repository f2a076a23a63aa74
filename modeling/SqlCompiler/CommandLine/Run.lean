import SqlCompiler.CommandLine.Arguments
import SqlCompiler.Config.Basic
import SqlCompiler.Json.Query
import SqlCompiler.Json.Reader
import SqlCompiler.Json.Schema
import SqlCompiler.Schema.Change
import SqlCompiler.Statement.Basic

/-!
# Running a command

What a command writes, and with which code it ends.  Files are read through the `Files` given, so
that the same commands run on the files of a computer and on files that are only listed.

## What is here

* `Files` — how files are read.
* `Outcome` — the texts written and the exit code.
* `CommandLine.execute` — a command line from its arguments to its outcome.
-/

set_option autoImplicit false
namespace SqlCompiler
namespace CommandLine

/-- How files are read, and where the user keeps a configuration. -/
structure Files (m : Type → Type) where
  read : String → m (Except FileFault String)
  userConfig : Option String

/-- What a command writes, and the code it ends with. -/
structure Outcome where
  code : Nat := 0
  output : String := ""
  errors : String := ""
deriving DecidableEq, Repr

/-- A command that fails with a message, after it has written something. -/
structure Failure where
  written : String := ""
  message : String

/-- Why a step of a command fails. -/
def Failure.ofError (e : Error) : Failure where
  message := e.message

/-- The name of the configuration file in the current directory. -/
def configFile : String := "relq.toml"

section
variable {m : Type → Type} [Monad m] (files : Files m)

/-- The content of a file that a command needs. -/
def content (file : String) : ExceptT Failure m String := do
  match ← files.read file with
  | .ok content => return content
  | .error fault => throw { message := "reading " ++ file ++ ": " ++ fault.message }

/-- The text of the first of the given files that is there. -/
def firstContent : List String → m (Option (Except FileFault String))
  | [] => return none
  | file :: rest => do
    match ← files.read file with
    | .error .notFound | .error .notADirectory | .error .isADirectory => firstContent rest
    | result => return some result

/-- The configuration in a file that was asked for. -/
def namedConfig (file : String) : ExceptT Failure m Config := do
  let context := "reading " ++ file ++ ": "
  match ← files.read file with
  | .error fault =>
    throw { message := context ++ (Error.file fault).message ++ ": " ++ fault.message }
  | .ok text =>
    match Config.read text with
    | .ok config => return config
    | .error e => throw { message := context ++ e.message }

/-- The configuration in the current directory or else the user's, if there is one. -/
def foundConfig : ExceptT Failure m Config := do
  match ← ExceptT.lift (firstContent files (configFile :: files.userConfig.toList)) with
  | none => return {}
  | some (.error fault) =>
    throw { message := (Error.file fault).message ++ ": " ++ fault.message }
  | some (.ok text) =>
    match Config.read text with
    | .ok config => return config
    | .error e => throw (.ofError e)

/-- The dialect that statements are written for. -/
def dialectFor (i : Invocation) : ExceptT Failure m Dialect := do
  let config ← match i.config with
    | some file => namedConfig files file
    | none => foundConfig files
  return { config with database := i.database.getD config.database }.dialect

end

/-- What is written about a statement: its text, the kinds of its parameters, and the rows to skip
if there are any. -/
def report (d : Dialect) (s : Statement) : String :=
  let parameters := s.setters.mapIdx fun i setter =>
    "  ?" ++ toString (i + 1) ++ " : " ++ setter.kind.name ++ "\n"
  "Dialect: " ++ d.name ++ "\nGenerated SQL:\n" ++ s.sql ++ "\n"
    ++ (if parameters.isEmpty then "" else "\nParameters:\n" ++ String.join parameters)
    ++ if 0 < s.skipRows then
        "\n⚠ Skip the first " ++ toString s.skipRows.toNat ++ " rows of the result on the client\n"
      else ""

/-- Statements, one to a line. -/
def listing (d : Dialect) (changes : List Schema.Change) : String :=
  String.join (changes.map fun c => c.text d ++ ";\n")

/-- A name in a column of ten characters. -/
def inColumn (s : String) : String :=
  s ++ String.ofList (List.replicate (10 - s.length) ' ')

/-- The dialects and what they lack. -/
def dialectList : String :=
  String.join (Database.all.map fun database =>
    let missing := database.dialect.missing.map Capability.name
    inColumn database.name ++ " "
      ++ (if missing.isEmpty then "full capability set" else "lacks " ++ ", ".intercalate missing)
      ++ "\n")

section
variable {m : Type → Type} [Monad m] (files : Files m)

/-- Runs a command; answers what it writes. -/
def run (i : Invocation) : ExceptT Failure m String := do
  match i.command with
  | .dialects => return dialectList
  | .build file =>
    match (Json.read? (← content files file)).bind Query.ofJson? with
    | none => throw { message := "parsing " ++ file }
    | some q =>
      let d ← dialectFor files i
      match Query.compile d q with
      | .ok s => return report d s
      | .error e => throw (.ofError e)
  | .ddl file =>
    match (Json.read? (← content files file)).bind Schema.Table.ofJson? with
    | none => throw { message := "parsing " ++ file }
    | some t =>
      let d ← dialectFor files i
      match t.create d with
      | .ok changes =>
        return "-- create\n" ++ listing d changes ++ "\n-- drop\n" ++ listing d (t.drop d)
      | .error e => throw { written := "-- create\n", message := e.message }

/-- A command line from its arguments to its outcome. -/
def execute (environment : Option String) (arguments : List String) : m Outcome := do
  match Invocation.ofArguments environment arguments with
  | .error (.help topic) => return { output := topic.text environment }
  | .error .version => return { output := "relq 0.1.0\n" }
  | .error .misuse => return { code := 2, errors := Topic.program.text environment }
  | .ok i =>
    match ← (run files i).run with
    | .ok output => return { output }
    | .error failure =>
      return {
        code := 1
        output := failure.written
        errors := "Error: " ++ failure.message ++ "\n" }

end

end CommandLine
end SqlCompiler
