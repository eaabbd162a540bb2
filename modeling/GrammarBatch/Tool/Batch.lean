import GrammarBatch.Config.Basic
import GrammarBatch.Path.Grammar

/-!
# What the tool is asked to compile

* `Binding`: what stays the same for every run of the tool;
* `Batch`: the grammars of one run;
* `Binding.arguments`: the arguments for both. The output and the library directory come first, then the
  options, then the grammars, each as its path below the input directory.
-/

namespace GrammarBatch

/-- What stays the same for every run of the tool. -/
structure Binding where
  outputDir : Path
  libDir : Path
  /-- Whether what is generated goes to the same directories below the output directory as the grammars
  have below the input directory; otherwise all of it goes to the output directory itself. -/
  forceRelativeOutput : Bool
  options : ToolOptions
deriving DecidableEq

/-- The binding of a configuration. -/
def Binding.ofConfig (c : BuildConfig) : Binding where
  outputDir := c.outputDir
  libDir := c.libraryDirectory
  forceRelativeOutput := true
  options := c.options

/-- The grammars of one run. -/
structure Batch where
  /-- The directory in which the tool runs. -/
  inputDir : Path
  /-- Whether the tool sorts the grammars by their dependencies and skips what is up to date. -/
  make : Bool
  grammars : List GrammarPath
deriving DecidableEq

/-- The flags of the options that are turned on. -/
def ToolOptions.flags (o : ToolOptions) : List String :=
  [(o.report, "-report"), (o.printGrammar, "-print"), (o.debug, "-debug"), (o.profile, "-profile"),
    (o.nfa, "-nfa"), (o.dfa, "-dfa"), (o.trace, "-trace"), (o.verbose, "-verbose")].filterMap
    fun (on, flag) => if on then some flag else none

/-- The arguments of the options. -/
def ToolOptions.arguments (o : ToolOptions) : List String :=
  o.flags ++
    ["-message-format", o.messageFormat.name,
      "-Xmaxswitchcaselabels", toString o.maxSwitchCaseLabels.toNat,
      "-Xminswitchalts", toString o.minSwitchAlts.toNat]

/-- The arguments of the tool for one run. -/
def Binding.arguments (b : Binding) (t : Batch) : List Bytes :=
  [Utf8.encode (if b.forceRelativeOutput then "-o" else "-fo"), b.outputDir.bytes,
    Utf8.encode "-lib", b.libDir.bytes] ++
    b.options.arguments.map Utf8.encode ++
    (if t.make then [Utf8.encode "-make"] else []) ++
    t.grammars.map (·.toPath.bytes)

end GrammarBatch
