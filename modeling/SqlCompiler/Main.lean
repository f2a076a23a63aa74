import SqlCompiler.CommandLine.Run

/-!
# The program

Runs a command line on the files of this computer.
-/

set_option autoImplicit false
namespace SqlCompiler

/-- Why a file could not be read. -/
def faultOf (e : IO.Error) : FileFault :=
  match e with
  | .noFileOrDirectory .. => .notFound
  | .inappropriateType _ code _ =>
    if code = 20 then .notADirectory else if code = 21 then .isADirectory else .other (toString e)
  | e => .other (toString e)

/-- The place of the user's configuration. -/
def userConfigFile : IO (Option String) := do
  let directory ← match ← IO.getEnv "XDG_CONFIG_HOME" with
    | some directory =>
      if directory.startsWith "/" then pure (some directory) else pure none
    | none => pure none
  let home ← IO.getEnv "HOME"
  let directory := directory <|> home.map (· ++ "/.config")
  return directory.map (· ++ "/relq/" ++ CommandLine.configFile)

end SqlCompiler

/-- The command line. -/
def main (arguments : List String) : IO UInt32 := do
  let files : SqlCompiler.CommandLine.Files IO := {
    read := fun file => do
      try
        return .ok (← IO.FS.readFile file)
      catch e => return .error (SqlCompiler.faultOf e)
    userConfig := ← SqlCompiler.userConfigFile }
  let outcome ← SqlCompiler.CommandLine.execute files (← IO.getEnv "RELQ_DIALECT") arguments
  IO.print outcome.output
  IO.eprint outcome.errors
  return outcome.code.toUInt32
