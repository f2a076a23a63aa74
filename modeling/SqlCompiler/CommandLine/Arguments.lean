import SqlCompiler.CommandLine.Usage
import SqlCompiler.Dialect.Builtin

/-!
# Arguments of the command line

A command with its file, and two options that may stand before or after the command: the database
and the configuration file.  The value of an option is the next argument, or follows an equals sign
or, for a one-letter option, the letter.  After `--` everything is a file.

An option may be given once before and once after the command; the one after it counts.  The
database may also come from the environment, wherever it is not given.  Arguments are looked at one
after the other, and the first that asks for help or makes no sense decides.  A value that is an
argument by itself is looked at together with the argument after it, but not with the command: help
on a command is given whatever the last option before the command is worth.

## What is here

* `Argument.ofString` — what one argument is by itself.
* `Command`, `Invocation` — what a whole command line asks for.
* `Invocation.ofArguments` — reading a command line.
-/

set_option autoImplicit false
namespace SqlCompiler
namespace CommandLine

/-- The options. -/
inductive Flag where
  | dialect
  | config
  | help
  | version
deriving DecidableEq, Repr

/-- What an argument is by itself. -/
inductive Argument where
  /-- An option, with its value if that is attached. -/
  | flag (f : Flag) (value : Option String)
  /-- The end of the options. -/
  | ending
  | plain (s : String)
  | unknown
deriving DecidableEq, Repr

namespace Argument

/-- An option by its long name, with a value after an equals sign if there is one. -/
def ofLong (cs : List Char) : Argument :=
  let name := String.ofList (cs.takeWhile (· != '='))
  let value := match cs.dropWhile (· != '=') with
    | _ :: value => some (String.ofList value)
    | [] => none
  match name, value with
  | "dialect", value => flag .dialect value
  | "config", value => flag .config value
  | "help", none => flag .help none
  | "version", none => flag .version none
  | _, _ => unknown

/-- A value attached to the letter of an option. -/
def attached : List Char → Option String
  | [] => none
  | '=' :: cs => some (String.ofList cs)
  | cs => some (String.ofList cs)

/-- An option by its letter. -/
def ofShort (letter : Char) (cs : List Char) : Argument :=
  match letter with
  | 'd' => flag .dialect (attached cs)
  | 'c' => flag .config (attached cs)
  | 'h' => flag .help none
  | 'V' => flag .version none
  | _ => unknown

/-- What an argument is by itself. -/
def ofString (s : String) : Argument :=
  match s.toList with
  | ['-', '-'] => ending
  | '-' :: '-' :: cs => ofLong cs
  | ['-'] => plain s
  | '-' :: letter :: cs => ofShort letter cs
  | _ => plain s

end Argument

/-- The commands. -/
inductive Command where
  /-- Write the statement of a stored query. -/
  | build (file : String)
  /-- Write the statements that create and remove a stored table. -/
  | ddl (file : String)
  /-- List the dialects. -/
  | dialects
deriving DecidableEq, Repr

/-- What a command line asks for. -/
structure Invocation where
  command : Command
  database : Option Database
  config : Option String
deriving DecidableEq, Repr

/-- Why there is nothing to run. -/
inductive Stop where
  /-- The command line makes no sense. -/
  | misuse
  | help (topic : Topic)
  | version
deriving DecidableEq, Repr

/-- The options given before the command, or those given after it together with its files. -/
structure Given where
  database : Option Database := none
  config : Option String := none
  files : List String := []
  /-- An option whose value has not been looked at. -/
  waiting : Option (Flag × String) := none

namespace Given

/-- Takes the value of an option, which must not have one already. -/
def take (g : Given) (f : Flag) (value : String) : Except Stop Given :=
  match f with
  | .dialect =>
    match g.database, Database.find value with
    | none, .ok database => .ok { g with database := some database }
    | _, _ => .error .misuse
  | .config =>
    if g.config.isNone && !value.isEmpty then .ok { g with config := some value }
    else .error .misuse
  | .help | .version => .error .misuse

/-- Takes the value that is waiting. -/
def settle (g : Given) : Except Stop Given :=
  match g.waiting with
  | some (f, value) => { g with waiting := none }.take f value
  | none => .ok g

/-- Takes an option on the way to a topic; answers the arguments after it and its value. -/
def takeFlag (topic : Topic) (g : Given) (f : Flag) (value : Option String) (rest : List String) :
    Except Stop (Given × List String) := do
  let g ← g.settle
  match f, value, rest with
  | .help, _, _ => throw (.help topic)
  | .version, _, _ => throw (if topic = .program then .version else .misuse)
  | f, some value, rest => return (← g.take f value, rest)
  | f, none, value :: rest =>
    match Argument.ofString value with
    | .plain _ => return ({ g with waiting := some (f, value) }, rest)
    | _ => throw .misuse
  | _, none, [] => throw .misuse

/-- Takes a file, if the command takes another one. -/
def takeFile (topic : Topic) (g : Given) (file : String) : Except Stop Given := do
  let g ← g.settle
  if file.isEmpty ∨ topic.fileCount ≤ g.files.length then throw .misuse
  return { g with files := g.files ++ [file] }

/-- Takes the arguments after the command, `fuel` being at least their number. -/
def takeAll (topic : Topic) : Nat → Given → List String → Except Stop Given
  | _, g, [] => g.settle
  | 0, _, _ => .error .misuse
  | fuel + 1, g, argument :: rest =>
    match Argument.ofString argument with
    | .ending => do (← rest.foldlM (takeFile topic) g).settle
    | .plain file => do takeAll topic fuel (← g.takeFile topic file) rest
    | .flag f value => do
      let (g, rest) ← g.takeFlag topic f value rest
      takeAll topic fuel g rest
    | .unknown => .error .misuse

/-- Takes the options before the command, `fuel` being at least the number of arguments; answers
the command and the arguments after it. -/
def takeBefore : Nat → Given → List String → Except Stop (Given × String × List String)
  | 0, _, _ => .error .misuse
  | _, _, [] => .error .misuse
  | fuel + 1, g, argument :: rest =>
    match Argument.ofString argument with
    | .plain name => .ok (g, name, rest)
    | .flag f value => do
      let (g, rest) ← g.takeFlag .program f value rest
      takeBefore fuel g rest
    | .ending | .unknown => .error .misuse

/-- The database given here or in the environment, which must make sense if it is looked at. -/
def databaseOr (g : Given) (environment : Option String) : Except Stop (Option Database) :=
  match g.database, environment with
  | some database, _ => .ok (some database)
  | none, none => .ok none
  | none, some name =>
    match Database.find name with
    | .ok database => .ok (some database)
    | .error _ => .error .misuse

end Given

/-- A command with its files. -/
def Command.ofTopic : Topic → List String → Except Stop Command
  | .build, [file] => .ok (.build file)
  | .ddl, [file] => .ok (.ddl file)
  | .dialects, [] => .ok .dialects
  | _, _ => .error .misuse

/-- What `help` is asked about: nothing, or one command. -/
def helpOn : List String → Stop
  | [] => .help .program
  | [name] => ((Topic.ofName? name).map .help).getD .misuse
  | _ => .misuse

/-- Reads a command line, given the database in the environment. -/
def Invocation.ofArguments (environment : Option String) (arguments : List String) :
    Except Stop Invocation := do
  let (before, name, rest) ← Given.takeBefore arguments.length {} arguments
  match Topic.ofName? name with
  | none => throw .misuse
  | some .help => throw (helpOn rest)
  | some topic =>
    let behind ← Given.takeAll topic rest.length {} rest
    let command ← Command.ofTopic topic behind.files
    let before ← before.settle
    discard (before.databaseOr environment)
    let inner ← behind.databaseOr environment
    return {
      command
      database := behind.database <|> before.database <|> inner
      config := behind.config <|> before.config }

end CommandLine
end SqlCompiler
