import GrammarBatch.Config.Basic
import GrammarBatch.Json.Printer

/-!
# Writing configurations

Every setting is written, in the order of the table that reads them, whether it is the default or not. A
configuration can be written if its paths are texts.
-/

namespace GrammarBatch

open Json

/-- The patterns as a list of texts. -/
def PatternSet.toValue (s : PatternSet) : Value := .list (s.texts.map .text)

/-- The set as a text. -/
def PatternSet.toText (s : PatternSet) : String := s.toValue.compact

/-- The options as an object. -/
def ToolOptions.toValue (o : ToolOptions) : Value := .object
  [("report", .flag o.report), ("print-grammar", .flag o.printGrammar), ("debug", .flag o.debug),
    ("profile", .flag o.profile), ("nfa", .flag o.nfa), ("dfa", .flag o.dfa), ("trace", .flag o.trace),
    ("message-format", .text o.messageFormat.name), ("verbose", .flag o.verbose),
    ("max-switch-case-labels", .number o.maxSwitchCaseLabels.toNat),
    ("min-switch-alts", .number o.minSwitchAlts.toNat)]

/-- The command as an object. -/
def ToolCommand.toValue (c : ToolCommand) : Value := .object
  [("program", .text c.program), ("args", .list (c.args.map .text))]

/-- The configuration as an object, if its paths are texts. -/
def BuildConfig.toValue? (c : BuildConfig) : Option Value := do
  let sourceDir ← c.sourceDir.text?
  let outputDir ← c.outputDir.text?
  let libDir ← c.libDir.mapM Path.text?
  return .object
    [("source-dir", .text sourceDir), ("output-dir", .text outputDir), ("lib-dir", .ofText? libDir),
      ("includes", c.includes.toValue), ("excludes", c.excludes.toValue),
      ("default-excludes", .flag c.defaultExcludes), ("options", c.options.toValue),
      ("tool", c.tool.toValue)]

/-- The configuration as a text. -/
def BuildConfig.toText? (c : BuildConfig) : Option String := c.toValue?.map Value.compact

end GrammarBatch
