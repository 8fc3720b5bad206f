import NodeFlow.Command.Execute
/-!
# The program

Reads the environment and the files that the command line may name, carries the command out, and writes
what it reports. It has no network: requests of a graph fail.
-/

set_option autoImplicit false

namespace NodeFlow

/-- The text of a file, if it can be read. -/
def readText (path : String) : IO (Option String) := do
  try
    return some (← IO.FS.readFile path)
  catch _ =>
    return none

/-- The variables that settings are read from. -/
def settingNames : List String :=
  ["FLOWSPEC_DEFAULT_MODEL", "FLOWSPEC_HTTP_TIMEOUT", "FLOWSPEC_LOG_LEVEL", "FLOWSPEC_LOG_DIR"]

/-- The settings of the process. -/
def readSettings : IO (Except Fault Settings) := do
  let found ← settingNames.filterMapM fun name => do
    return (← IO.getEnv name).map fun value => (name, value)
  return Settings.ofEnvironment found

/-- The files that a command line may name: each of its words, and what stands behind an equals sign. -/
def readFiles (words : List String) : IO (List (String × String)) :=
  (words ++ words.filterMap fun w => (Command.cutAtEquals w).2).filterMapM fun path => do
    return (← readText path).map fun text => (path, text)

/-- How the program is used. -/
def usageText : String :=
  "Usage: validate PATH | run PATH [--shared JSON] [--shared-file PATH] [--verbose] | show PATH | kinds\n"

end NodeFlow

/-- Carries out a command line. -/
def main (words : List String) : IO UInt32 := do
  let files ← NodeFlow.readFiles words
  let settings ← NodeFlow.readSettings
  let report := NodeFlow.Command.runLine
    ⟨fun path => files.lookup path, settings, fun _ => .broken "no network"⟩ words
  IO.print report.out
  IO.eprint (if report.exitCode = 2 then NodeFlow.usageText else report.err)
  match report.failure with
  | some e => IO.eprintln e.message
  | none => pure ()
  return report.exitCode.toUInt32
