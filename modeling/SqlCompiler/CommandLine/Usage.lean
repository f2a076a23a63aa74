/-!
# Usage

What the program says about itself and about each of its commands.
-/

set_option autoImplicit false
namespace SqlCompiler
namespace CommandLine

/-- What help can be about. -/
inductive Topic where
  /-- The program as a whole. -/
  | program
  | build
  | ddl
  | dialects
  | help
deriving DecidableEq, Repr

namespace Topic

/-- The command with a name. -/
def ofName? : String → Option Topic
  | "build" => some build
  | "ddl" => some ddl
  | "dialects" => some dialects
  | "help" => some help
  | _ => none

/-- How many files a command takes. -/
def fileCount : Topic → Nat
  | build | ddl => 1
  | program | dialects | help => 0

/-- What a command does. -/
def summary : Topic → String
  | program => "Relational query compiler"
  | build => "Compile a JSON comprehension to SQL"
  | ddl => "Print create and drop statements for a JSON table definition"
  | dialects => "List built-in dialects and the capabilities they lack"
  | help => "Print this message or the help of the given subcommand(s)"

/-- How a command is called. -/
def call : Topic → String
  | program => "relq [OPTIONS] <COMMAND>"
  | build => "relq build [OPTIONS] <FILE>"
  | ddl => "relq ddl [OPTIONS] <FILE>"
  | dialects => "relq dialects [OPTIONS]"
  | help => "relq help [COMMAND]..."

/-- The commands or arguments, if there are any. -/
def arguments : Topic → String
  | program => "Commands:\n"
    ++ "  build     " ++ build.summary ++ "\n"
    ++ "  ddl       " ++ ddl.summary ++ "\n"
    ++ "  dialects  " ++ dialects.summary ++ "\n"
    ++ "  help      " ++ help.summary ++ "\n"
  | build => "Arguments:\n  <FILE>  Path to the comprehension JSON\n"
  | ddl => "Arguments:\n  <FILE>  Path to the table definition JSON\n"
  | dialects => ""
  | help => "Arguments:\n  [COMMAND]...  Print help for the subcommand(s)\n"

/-- The options, with the database in the environment. -/
def options (environment : Option String) : Topic → String
  | help => ""
  | topic => "Options:\n"
    ++ "  -d, --dialect <DIALECT>  Target dialect, overriding the config file [env: RELQ_DIALECT="
    ++ environment.getD "" ++ "]\n"
    ++ "  -c, --config <CONFIG>    Config file "
    ++ "(default: ./relq.toml, then the user config directory)\n"
    ++ "  -h, --help               Print help\n"
    ++ (if topic = program then "  -V, --version            Print version\n" else "")

/-- Some calls of the program. -/
def examples : Topic → String
  | program => "EXAMPLES:\n"
    ++ "    relq build query.json\n"
    ++ "    relq build query.json --dialect derby\n"
    ++ "    relq ddl users.json --dialect mysql\n"
    ++ "    RELQ_LOG=relq=debug relq build query.json\n"
  | _ => ""

/-- The help on a topic: its parts with an empty line before each but the first. -/
def text (environment : Option String) (topic : Topic) : String :=
  let parts := [topic.arguments, topic.options environment, topic.examples]
  topic.summary ++ "\n\nUsage: " ++ topic.call ++ "\n"
    ++ String.join ((parts.filter (!·.isEmpty)).map ("\n" ++ ·))

end Topic
end CommandLine
end SqlCompiler
