import GrammarBatch.CommandLine.Invocation
import GrammarBatch.Config.Load
import GrammarBatch.Json.Printer
import GrammarBatch.Pass.Basic
import GrammarBatch.Text.Plain
import GrammarBatch.Tool.Command

/-!
# The command

`Program.run` is the whole command: it reads the command line, does what it asks for, and tells what is
printed and how the command ends. `Program.runWith` is the same with any tool in place of the command that the
configuration names.

* `build` prints each directory that is registered; `scan` prints a line for each grammar, or a JSON
  list of objects with the path and the directory of each;
* log records go to standard error, an info record bare and any other with its level in front;
* a failure is printed on standard error after the log, with its causes.

The exit status is 0, or 1 for a failure, or 2 for a command line that is refused.
-/

namespace GrammarBatch

open CommandLine

/-- What a run of the command comes to. -/
structure Report where
  status : Nat
  stdout : String
  stderr : String
  course : Course ToolCall

namespace Program

variable {ε : Type}

/-- A log record as a line. -/
def logLine (r : Log.Record) : String :=
  Text.plainStream ((if r.level = .info then "" else r.level.name ++ ": ") ++ r.message ++ "\n")

/-- The report on a job that printed `stdout`, and failed with an error or not. -/
def report (limit : Log.Limit) (course : Course ToolCall) (stdout : String) (failure : Option String) :
    Report where
  status := if failure.isSome then 1 else 0
  stdout := stdout
  stderr := String.join ((course.logs limit).map logLine) ++
    match failure with
    | some text => text ++ "\n"
    | none => ""
  course := course

/-- What the end of a pass is told as. -/
def closingRecord : Outcome → Log.Record
  | .compiled grammars warnings =>
    ⟨.info, "compiled " ++ toString grammars.length ++ " grammar(s) with " ++ toString warnings ++
      " warning(s)"⟩
  | .noGrammars => ⟨.warn, "no grammars to process"⟩
  | .noSources dir => ⟨.warn, "no grammar directory at '" ++ dir.display ++ "'"⟩

/-- Compiles all grammars with the tool. -/
def build (tools : Toolchain ToolCall ε) (env : Environment) (limit : Log.Limit) (c : BuildConfig)
    (fs : FileSystem) : Report :=
  let (result, course) := (Pass.run env tools c).run (.start fs)
  let stdout := String.join (course.registered.map fun p => p.display ++ "\n")
  match result with
  | .ok outcome =>
    report limit { course with events := course.events ++ [.log (closingRecord outcome)] } stdout none
  | .error e => report limit course stdout (some e.render)

/-- A grammar as an object. -/
def ofGrammar (g : GrammarPath) : Json.Value :=
  .object [("path", .text g.display), ("subdir", .text g.folder.display)]

/-- The list of the grammars. -/
def listing (asJson : Bool) (grammars : List GrammarPath) : String :=
  if asJson then (Json.Value.list (grammars.map ofGrammar)).indented ++ "\n"
  else String.join (grammars.map fun g => g.display ++ "\n")

/-- Lists the grammars. -/
def scan (env : Environment) (limit : Log.Limit) (c : BuildConfig) (asJson : Bool) (fs : FileSystem) :
    Report :=
  if !fs.isDirectory env.current c.sourceDir then
    report limit ⟨fs, [.log ⟨.warn, "no grammar directory at '" ++ c.sourceDir.display ++ "'"⟩]⟩
      (if asJson then "[]\n" else "") none
  else
    match (Filter.ofConfig c).scan fs env.current c.sourceDir with
    | .ok grammars => report limit (.start fs) (listing asJson grammars) none
    | .error e => report limit (.start fs) "" (some (withCauses e.message e.causes))

/-- Does what the command line asks for. -/
def perform (tools : ToolCommand → Toolchain ToolCall ε) (env : Environment) (i : Invocation)
    (fs : FileSystem) : Report :=
  let limit := Log.Limit.ofVerbosity i.verbosity i.quiet
  match BuildConfig.prepare fs env.current i.task.config i.task.overrides with
  | .error e => report limit (.start fs) "" (some e.render)
  | .ok c =>
    match i.task with
    | .build .. => build (tools c.tool) env limit c fs
    | .scan _ _ asJson => scan env limit c asJson fs

/-- Runs the command, which compiles with these tools. The first argument is the name it was called by. -/
def runWith (tools : ToolCommand → Toolchain ToolCall ε) (env : Environment) (argv : List Bytes)
    (fs : FileSystem) : Report :=
  match Invocation.ofArguments argv with
  | .error (.help text) => ⟨0, Text.plainStream text, "", .start fs⟩
  | .error .version => ⟨0, versionText, "", .start fs⟩
  | .error (.misuse m) => ⟨2, "", Text.plainStream (m.words ++ "\n"), .start fs⟩
  | .ok i => perform tools env i fs

/-- Runs the command, which compiles with the tool that its configuration names. -/
def run (env : Environment) (argv : List Bytes) (fs : FileSystem) : Report :=
  runWith (commandToolchain env) env argv fs

end Program

end GrammarBatch
