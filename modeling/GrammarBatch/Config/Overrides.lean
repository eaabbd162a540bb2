import GrammarBatch.Config.Basic

/-!
# Overrides

Settings given on the command line are laid over a configuration. A directory, a format, a number or a
program replaces the configured one if it is given; includes and tool arguments replace the configured
ones if there are any; excludes are added; a switch only turns one way.
-/

namespace GrammarBatch

/-- Settings laid over a configuration. -/
structure Overrides where
  sourceDir : Option Path := none
  outputDir : Option Path := none
  libDir : Option Path := none
  /-- Includes in place of the configured ones. -/
  includes : List String := []
  /-- Excludes added to the configured ones. -/
  excludes : List String := []
  noDefaultExcludes : Bool := false
  report : Bool := false
  printGrammar : Bool := false
  debug : Bool := false
  profile : Bool := false
  nfa : Bool := false
  dfa : Bool := false
  trace : Bool := false
  messageFormat : Option MessageFormat := none
  quietTool : Bool := false
  maxSwitchCaseLabels : Option UInt32 := none
  minSwitchAlts : Option UInt32 := none
  tool : Option String := none
  /-- Arguments of the tool in place of the configured ones. -/
  toolArgs : List String := []
deriving DecidableEq, Inhabited

namespace Overrides

/-- The options with the overrides laid over them. -/
def applyOptions (o : Overrides) (options : ToolOptions) : ToolOptions where
  report := options.report || o.report
  printGrammar := options.printGrammar || o.printGrammar
  debug := options.debug || o.debug
  profile := options.profile || o.profile
  nfa := options.nfa || o.nfa
  dfa := options.dfa || o.dfa
  trace := options.trace || o.trace
  messageFormat := o.messageFormat.getD options.messageFormat
  verbose := options.verbose && !o.quietTool
  maxSwitchCaseLabels := o.maxSwitchCaseLabels.getD options.maxSwitchCaseLabels
  minSwitchAlts := o.minSwitchAlts.getD options.minSwitchAlts

/-- The command with the overrides laid over it. -/
def applyCommand (o : Overrides) (command : ToolCommand) : ToolCommand where
  program := o.tool.getD command.program
  args := if o.toolArgs.isEmpty then command.args else o.toolArgs

/-- The configuration with the overrides laid over it. -/
def apply (o : Overrides) (c : BuildConfig) : BuildConfig where
  sourceDir := o.sourceDir.getD c.sourceDir
  outputDir := o.outputDir.getD c.outputDir
  libDir := o.libDir.or c.libDir
  includes := if o.includes.isEmpty then c.includes else .ofList o.includes
  excludes := c.excludes.insertAll o.excludes
  defaultExcludes := c.defaultExcludes && !o.noDefaultExcludes
  options := o.applyOptions c.options
  tool := o.applyCommand c.tool

end Overrides

end GrammarBatch
