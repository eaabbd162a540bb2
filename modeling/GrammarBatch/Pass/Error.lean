import GrammarBatch.Config.Error
import GrammarBatch.Discovery.Scan
import GrammarBatch.Tool.Error

/-!
# Failures of a pass

`BuildError` is why a pass did not end well. `BuildError.render` is the text for the error and its
causes.
-/

namespace GrammarBatch

/-- Why a pass did not end well. -/
inductive BuildError where
  | outputDir (path : Path) (cause : SystemError)
  /-- The tool could not be made ready; no grammar was looked at. -/
  | toolUnavailable (cause : ToolError)
  | discovery (cause : ScanError)
  /-- The tool was ready but could not compile the grammars. -/
  | toolRun (cause : ToolError)
  | grammarErrors (count : Nat)
  | config (cause : ConfigError)
  | unsetVariable (name : String)

namespace BuildError

/-- What is said about the failure. -/
def message : BuildError → String
  | outputDir path _ => "failed to create output directory '" ++ path.display ++ "'"
  | toolUnavailable _ => "grammar tool unavailable"
  | discovery _ => "fatal error while evaluating the names of the grammar files to analyze"
  | toolRun _ => "grammar tool failed to run"
  | grammarErrors count => "grammar tool caught " ++ toString count ++ " build errors"
  | config cause => cause.message
  | unsetVariable name =>
    "environment variable " ++ name ++ " is not set (is this running from a build script?)"

/-- The causes of the failure. -/
def causes : BuildError → List String
  | outputDir _ cause => [cause.message]
  | toolUnavailable cause | toolRun cause => cause.message :: cause.causes
  | discovery cause => cause.message :: cause.causes
  | config cause => cause.causes
  | grammarErrors _ | unsetVariable _ => []

/-- The failure with its causes. -/
def render (e : BuildError) : String := withCauses e.message e.causes

/-- The number of errors in the grammars, where that is the failure. -/
def grammarErrorCount? : BuildError → Option Nat
  | grammarErrors count => some count
  | _ => none

end BuildError

end GrammarBatch
