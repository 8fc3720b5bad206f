import NodeFlow.Number.Numeral
import NodeFlow.Value.Fault
import NodeFlow.Value.Members
/-!
# Settings

Defaults that the environment may change: the model of nodes that name none, the seconds after which
an HTTP request is given up, and where and how much is logged. The seconds have to be a numeral, and
whoever asks for settings learns of it if they are not.
-/

set_option autoImplicit false

namespace NodeFlow

/-- The defaults in force. -/
structure Settings where
  model : String
  timeout : Binary64
  logLevel : String
  logDirectory : Option String

namespace Settings

/-- The settings of an environment. -/
def ofEnvironment (environment : Members String) : Except Fault Settings :=
  let read (name standard : String) := (Members.get? environment name).getD standard
  match Numeral.readFloat? (read "FLOWSPEC_HTTP_TIMEOUT" "30").toList with
  | none => .error .value
  | some timeout =>
    .ok {
      model := read "FLOWSPEC_DEFAULT_MODEL" "gpt-4o-mini"
      timeout := timeout
      logLevel := read "FLOWSPEC_LOG_LEVEL" "info"
      logDirectory := (Members.get? environment "FLOWSPEC_LOG_DIR").filter (· != "") }

end Settings

end NodeFlow
