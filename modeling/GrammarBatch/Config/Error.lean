import GrammarBatch.Json.Fault
import GrammarBatch.Path.Basic
import GrammarBatch.SystemError

/-!
# Failures of configurations

`ConfigError` is why there is no configuration to work with. An error has a message of its own and a list
of causes, the nearest first; `withCauses` is the text for both.
-/

namespace GrammarBatch

/-- An error with its causes, the nearest first. -/
def withCauses (message : String) (causes : List String) : String :=
  "error: " ++ message ++ String.join (causes.map ("\n  caused by: " ++ ·))

/-- Why there is no configuration. -/
inductive ConfigError where
  | unreadable (path : Path) (cause : SystemError)
  | malformed (text : String) (fault : Json.Fault)
  | unresolved (path : Path) (cause : SystemError)

namespace ConfigError

/-- What is said about the error. -/
def message : ConfigError → String
  | unreadable path _ => "failed to read config '" ++ path.display ++ "'"
  | malformed text fault => "invalid config: " ++ fault.message text.toList
  | unresolved path _ => "cannot resolve path '" ++ path.display ++ "'"

/-- The causes of the error. -/
def causes : ConfigError → List String
  | unreadable _ cause => [cause.message]
  | malformed text fault => [fault.message text.toList]
  | unresolved _ cause => [cause.message]

/-- The error with its causes. -/
def render (e : ConfigError) : String := withCauses e.message e.causes

end ConfigError

end GrammarBatch
