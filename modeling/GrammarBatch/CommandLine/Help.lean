import GrammarBatch.CommandLine.Argument
import GrammarBatch.Text.Plain

/-!
# Help texts

`Scope.help` is printed for a request for help: what the command is for, how it is used, and its
arguments in two columns. The program is named as it was called; a program without a name of its own is
named by its usual one, or left out in front of a command. The name is emphasised, so the texts hold terminal
control.
-/

namespace GrammarBatch.CommandLine

open Text (emphasised)

/-- The usual name of the program. -/
def programName : String := "grist"

/-- What the program is for. -/
def programPurpose : String := "Batch grammar compilation with a mirrored output layout"

/-- The version and the name of the program. -/
def versionText : String := programName ++ " 0.2.0\n"

/-- The text with blanks up to a width. -/
def padded (width : Nat) (s : String) : String := s.pushn ' ' (width - s.length)

/-- Lines of two columns, the second of which starts two blanks after the longest entry of the first. -/
def columns (rows : List (String × String)) : String :=
  let width := (rows.map (·.1.length)).foldl max 0
  String.join (rows.map fun (a, b) => padded width a ++ "  " ++ b ++ "\n")

/-- The names of an argument, with the long ones aligned. -/
def Argument.names (a : Argument) : String :=
  (match a.short? with
    | some c => "  -" ++ String.singleton c ++ ", "
    | none => "      ") ++ a.display

/-- The arguments of a scope with their purposes. -/
def Scope.options (s : Scope) : String :=
  "Options:\n" ++ columns (s.arguments.map fun a => (a.names, a.purpose))

/-- The commands with their purposes. -/
def verbList : String :=
  "Commands:\n" ++ columns (Verb.all.map fun v => ("  " ++ v.name, v.purpose))

/-- Examples of compiling. -/
def buildExamples : String :=
  "EXAMPLES:
  grist build                                   # src/grammars -> target/generated-sources/grammars
  grist build --source-dir grammar -e 'wip/**'  # skip work in progress
  grist build -c grist.json --report            # config file plus an override
  grist build --tool java --tool-arg -jar --tool-arg antlr-3.5.3-complete.jar

Grammars under <source-dir>/imports are never compiled directly; they are
found by the tool through --lib-dir. On success the output root is printed.
"

/-- Examples of listing. -/
def scanExamples : String :=
  "EXAMPLES:
  grist scan                          # one relative path per line
  grist scan -i '**/*.g3' --json      # other extension, JSON output
"

/-- The words that call a command, emphasised. A program without a name of its own is left out. -/
def callOf (program : Option String) (v : Verb) : String :=
  emphasised (match program with
    | some p => p ++ " " ++ v.name
    | none => v.name)

/-- The help of a scope, for a program called by the given name. -/
def Scope.help (program : Option String) : Scope → String
  | .top =>
    programPurpose ++ "\n\nUsage: " ++ emphasised (program.getD programName) ++
      " [OPTIONS] <COMMAND>\n\n" ++ verbList ++ "\n" ++ Scope.options .top
  | .build =>
    Verb.build.purpose ++ "\n\nUsage: grist build [OPTIONS]\n  grist build -c grist.json [OPTIONS]\n\n" ++
      Scope.options .build ++ "\n" ++ buildExamples
  | .scan =>
    Verb.scan.purpose ++ "\n\nUsage: " ++ callOf program .scan ++ " [OPTIONS]\n\n" ++
      Scope.options .scan ++ "\n" ++ scanExamples

/-- The help of the command that prints help. -/
def helpOfHelp (program : Option String) : String :=
  Verb.help.purpose ++ "\n\nUsage: " ++ callOf program .help ++ " [COMMAND]...\n\n" ++
    "Arguments:\n" ++ columns [("  [COMMAND]...", "Print help for the subcommand(s)")]

end GrammarBatch.CommandLine
