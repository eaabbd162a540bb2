import GrammarBatch.Config.Absolute
import GrammarBatch.Files.Folders
import GrammarBatch.Pass.Error
import GrammarBatch.Pass.Job

/-!
# One pass

A pass makes the output directory, makes the tool ready, lists the grammars, compiles all of them at once
and registers the output directory. Each step is taken only if the ones before it went well.

* `Pass.collectBatch`: the grammars of a configuration as one batch;
* `Pass.run`: the pass, which ends with an `Outcome` or a `BuildError`.

A missing source directory is no failure, and nothing is registered then. A source directory without
grammars is none either, and the output directory is registered.
-/

namespace GrammarBatch

/-- How a pass ends well. -/
inductive Outcome where
  /-- There is no source directory. -/
  | noSources (sourceDir : Path)
  /-- There are no grammars in it. -/
  | noGrammars
  | compiled (grammars : List GrammarPath) (warnings : Nat)
deriving DecidableEq

/-- The number of grammars compiled. -/
def Outcome.grammarCount : Outcome → Nat
  | compiled grammars _ => grammars.length
  | noSources _ | noGrammars => 0

namespace Pass

variable {τ ε : Type}

/-- A switch in words. -/
def onOff (b : Bool) : String := if b then "true" else "false"

/-- What is told about a configuration in detail. -/
def parameters (c : BuildConfig) : List String :=
  c.excludes.texts.map ("exclude: " ++ ·) ++
    c.includes.texts.map ("include: " ++ ·) ++
    ["source: " ++ c.sourceDir.display,
      "output: " ++ c.outputDir.display,
      "library: " ++ c.libraryDirectory.display,
      "report                 : " ++ onOff c.options.report,
      "print-grammar          : " ++ onOff c.options.printGrammar,
      "debug                  : " ++ onOff c.options.debug,
      "profile                : " ++ onOff c.options.profile,
      "nfa                    : " ++ onOff c.options.nfa,
      "dfa                    : " ++ onOff c.options.dfa,
      "trace                  : " ++ onOff c.options.trace,
      "message-format         : " ++ c.options.messageFormat.name,
      "max-switch-case-labels : " ++ toString c.options.maxSwitchCaseLabels.toNat,
      "min-switch-alts        : " ++ toString c.options.minSwitchAlts.toNat,
      "verbose                : " ++ onOff c.options.verbose]

/-- Logs every message at the level. -/
def logAll (level : Log.Level) (messages : List String) : Job τ Unit := messages.forM (Job.log level)

/-- What is told about each grammar that was found. -/
def findings (c : BuildConfig) (grammars : List GrammarPath) : List String :=
  grammars.flatMap fun g =>
    ["grammar file '" ++ (g.inDirectory c.sourceDir).display ++ "' detected",
      "  ... relative path is: " ++ g.display]

/-- The grammars of a configuration as one batch, which the tool sorts by itself. -/
def collectBatch (env : Environment) (c : BuildConfig) : Job τ (Except BuildError Batch) := do
  match (Filter.ofConfig c).scan (← Job.files) env.current c.sourceDir with
  | .error e => return .error (.discovery e)
  | .ok grammars =>
    logAll .debug (findings c grammars)
    return .ok { inputDir := c.sourceDir, make := true, grammars }

/-- Compiles a batch, if there is anything in it, and registers the output directory. -/
def compileBatch (tools : Toolchain τ ε) (engine : ε) (c : BuildConfig) (batch : Batch) :
    Job τ (Except BuildError Outcome) := do
  if batch.grammars.isEmpty then
    Job.log .info "no grammars to process"
    Job.step (.register c.outputDir)
    return .ok .noGrammars
  Job.step (.compile batch)
  match ← Job.delegate (tools.compile engine batch) with
  | .error cause => return .error (.toolRun cause)
  | .ok tally =>
    if !tally.isSuccess then return .error (.grammarErrors tally.errors)
    Job.step (.register c.outputDir)
    return .ok (.compiled batch.grammars tally.warnings)

/-- Looks for the grammars and compiles them, with a tool that is ready. -/
def processSources (env : Environment) (tools : Toolchain τ ε) (engine : ε) (c : BuildConfig) :
    Job τ (Except BuildError Outcome) := do
  Job.step (.inspect c.sourceDir)
  if !(← Job.files).isDirectory env.current c.sourceDir then
    Job.log .info ("no grammars to compile in " ++ c.sourceDir.display)
    return .ok (.noSources c.sourceDir)
  Job.log .info ("processing source directory " ++ c.sourceDir.display)
  Job.step (.discover c.sourceDir)
  match ← collectBatch env c with
  | .error e => return .error e
  | .ok batch => compileBatch tools engine c batch

/-- Makes the tool ready, once there is an output directory. -/
def prepareTool (tools : Toolchain τ ε) (c : BuildConfig) : Job τ (Except BuildError ε) := do
  let binding := Binding.ofConfig c
  Job.log .debug ("output directory base will be " ++ binding.outputDir.display)
  Job.step (.prepare binding)
  match ← Job.delegate (tools.prepare binding) with
  | .error cause =>
    Job.log .error ("the attempt to create the grammar tool failed: " ++ cause.message)
    return .error (.toolUnavailable cause)
  | .ok engine => return .ok engine

/-- Makes the output directory. -/
def makeOutput (env : Environment) (c : BuildConfig) : Job τ (Except BuildError Unit) := do
  Job.step (.makeOutput c.outputDir)
  let made ← Job.change fun fs => fs.makeDirectories env.current c.outputDir
  return made.mapError (.outputDir c.outputDir)

/-- Runs the pass for a configuration whose directories are spelled out. -/
def runResolved (env : Environment) (tools : Toolchain τ ε) (c : BuildConfig) :
    Job τ (Except BuildError Outcome) := do
  logAll .debug (parameters c)
  match ← makeOutput env c with
  | .error e => return .error e
  | .ok () =>
    match ← prepareTool tools c with
    | .error e => return .error e
    | .ok engine => processSources env tools engine c

/-- Runs the pass. -/
def run (env : Environment) (tools : Toolchain τ ε) (c : BuildConfig) :
    Job τ (Except BuildError Outcome) := do
  Job.step .resolve
  match c.absolute ((← Job.files).pathOf? env.current) with
  | .error e => return .error (.config e)
  | .ok c => runResolved env tools c

end Pass

end GrammarBatch
