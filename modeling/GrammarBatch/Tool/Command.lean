import GrammarBatch.Pass.Job

/-!
# Tools that are commands

`commandToolchain` runs a program for each batch, in the input directory, with the arguments of the
command in front of the generated ones. What the program prints is logged line by line, what it prints on
standard output first. A program that fails without reporting an error is itself a failure.
-/

namespace GrammarBatch

/-- A command that is ready to be run. -/
structure CommandEngine where
  program : Path
  /-- The arguments in front of the generated ones. -/
  args : List String
  binding : Binding
deriving DecidableEq

namespace CommandEngine

/-- The arguments of a run as they are shown. -/
def shownArguments (e : CommandEngine) (t : Batch) : String :=
  " ".intercalate ((e.binding.arguments t).map Utf8.decodeLossy)

/-- What is said about a run before it. -/
def announcement (e : CommandEngine) (t : Batch) : String :=
  "running " ++ e.program.display ++ " " ++ " ".intercalate e.args ++ " " ++ e.shownArguments t

/-- The lines that a program printed. -/
def linesOf (b : Behaviour) : List Diagnostic :=
  Diagnostic.ofText (Utf8.lossy .rest b.stdout) ++ Diagnostic.ofText (Utf8.lossy .rest b.stderr)

/-- The verdict on a run. -/
def verdict (e : CommandEngine) (b : Behaviour) : Except ToolError Tally :=
  let tally := Tally.of (linesOf b)
  if !b.ending.isSuccess && tally.isSuccess then .error (.failed e.program.display b.ending)
  else .ok tally

/-- Compiles a batch. -/
def compile (env : Environment) (e : CommandEngine) (t : Batch) : Job ToolCall (Except ToolError Tally) := do
  Job.log .debug (e.announcement t)
  let args := e.args.map Utf8.encode ++ e.binding.arguments t
  match env.start (← Job.files) e.program args t.inputDir with
  | .error cause => return .error (.notStarted e.program.display cause)
  | .ok (call, b) =>
    Job.emit (.tool call)
    for d in linesOf b do
      Job.emit (.log d.record)
    return e.verdict b

end CommandEngine

/-- The toolchain that runs a command. -/
def commandToolchain (env : Environment) (command : ToolCommand) : Toolchain ToolCall CommandEngine where
  prepare binding := do
    match env.findProgram (← Job.files) command.program with
    | none => return .error (.notFound command.program)
    | some program =>
      Job.log .debug ("grammar tool resolved to " ++ program.display)
      return .ok { program, args := command.args, binding }
  compile := CommandEngine.compile env

end GrammarBatch
