import GrammarBatch.Log
import GrammarBatch.Path.Basic

/-!
# Directives of a build script

A build script speaks to Cargo in lines on its standard output.

* `Directive`: what it says, and `Directive.line`: the line for it;
* `Sink`: where the lines go. While it is broken nothing is written, and a warning is logged instead.
-/

namespace GrammarBatch

/-- What a build script says. -/
inductive Directive where
  /-- Run the script again when the path changes. -/
  | rerunIfChanged (path : Path)
  /-- Set a variable to the path while the package is compiled. -/
  | setVariable (name : String) (path : Path)
deriving DecidableEq

namespace Directive

/-- The directive itself. -/
def text : Directive → String
  | rerunIfChanged path => "rerun-if-changed=" ++ path.display
  | setVariable name path => "rustc-env=" ++ name ++ "=" ++ path.display

/-- The directive as a line. -/
def line (d : Directive) : String := "cargo::" ++ d.text ++ "\n"

/-- The name of the variable that is set if no other is wanted. -/
def defaultVariable : String := "GRIST_OUT_DIR"

end Directive

/-- Where directives are written. -/
structure Sink where
  written : String := ""
  broken : Bool := false
deriving DecidableEq, Repr

namespace Sink

/-- Writes a directive: the sink after it, and what is logged. -/
def write (s : Sink) (d : Directive) : Sink × List Log.Record :=
  if s.broken then
    (s, [⟨.warn, "failed to write cargo directive '" ++ d.text ++ "': sink closed"⟩])
  else ({ s with written := s.written ++ d.line }, [])

end Sink

end GrammarBatch
