import GrammarBatch.Files.Basic
import GrammarBatch.SystemError

/-!
# Failures of the tool

`ToolError` is why the grammar tool could not be made ready or did not do its work.
-/

namespace GrammarBatch

/-- The names of the signals, from number 1 on. -/
def signalNames : List String :=
  ["SIGHUP", "SIGINT", "SIGQUIT", "SIGILL", "SIGTRAP", "SIGABRT", "SIGBUS", "SIGFPE", "SIGKILL",
    "SIGUSR1", "SIGSEGV", "SIGUSR2", "SIGPIPE", "SIGALRM", "SIGTERM", "SIGSTKFLT", "SIGCHLD", "SIGCONT",
    "SIGSTOP", "SIGTSTP", "SIGTTIN", "SIGTTOU", "SIGURG", "SIGXCPU", "SIGXFSZ", "SIGVTALRM", "SIGPROF",
    "SIGWINCH", "SIGIO", "SIGPWR", "SIGSYS"]

namespace Ending

/-- Whether the program reports success. -/
def isSuccess (e : Ending) : Bool := e = .exit 0

/-- How the ending is told. -/
def message : Ending → String
  | exit status => "exit status: " ++ toString status
  | signal number =>
    "signal: " ++ toString number ++
      match number with
      | 0 => ""
      | n + 1 =>
        match signalNames[n]? with
        | some name => " (" ++ name ++ ")"
        | none => ""

end Ending

/-- Why the tool did not do its work. -/
inductive ToolError where
  | notFound (program : String)
  | notStarted (program : String) (cause : SystemError)
  /-- The program failed but reported no error. -/
  | failed (program : String) (ending : Ending)
  | other (text : String)
deriving DecidableEq

namespace ToolError

/-- What is said about the failure. -/
def message : ToolError → String
  | notFound program => "grammar tool '" ++ program ++ "' not found"
  | notStarted program _ => "failed to launch grammar tool '" ++ program ++ "'"
  | failed program ending =>
    "grammar tool '" ++ program ++ "' exited with " ++ ending.message ++ " without reporting errors"
  | other text => text

/-- The causes of the failure. -/
def causes : ToolError → List String
  | notStarted _ cause => [cause.message]
  | _ => []

end ToolError

end GrammarBatch
