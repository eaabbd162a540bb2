import GrammarBatch.Config.Basic
import GrammarBatch.Config.Error
import GrammarBatch.Json.Schema

/-!
# Reading configurations

A configuration is written as a JSON object with a member for each setting that is not the default. The
tables give the members of each record and their order.

* `ToolOptions.reader`, `ToolCommand.reader`, `BuildConfig.reader`, `PatternSet.reader`: the readers;
* `BuildConfig.ofText`, `PatternSet.ofText`: a whole text. Paths are kept as written.
-/

namespace GrammarBatch

open Json Json.Schema

/-- Reads a path. -/
def Path.reader : Reader Path := textOf "path string" fun s => .ok (.ofString s)

/-- Reads a set of patterns from a list of texts. -/
def PatternSet.reader : Reader PatternSet := do return PatternSet.ofList (← listOf text)

/-- Reads the name of a message format. -/
def MessageFormat.reader : Reader MessageFormat := choice MessageFormat.named

/-- The settings of the tool's options. -/
def ToolOptions.table : List (Member ToolOptions) :=
  [.of "report" flag fun b o => { o with report := b },
    .of "print-grammar" flag fun b o => { o with printGrammar := b },
    .of "debug" flag fun b o => { o with debug := b },
    .of "profile" flag fun b o => { o with profile := b },
    .of "nfa" flag fun b o => { o with nfa := b },
    .of "dfa" flag fun b o => { o with dfa := b },
    .of "trace" flag fun b o => { o with trace := b },
    .of "message-format" MessageFormat.reader fun f o => { o with messageFormat := f },
    .of "verbose" flag fun b o => { o with verbose := b },
    .of "max-switch-case-labels" word32 fun n o => { o with maxSwitchCaseLabels := n },
    .of "min-switch-alts" word32 fun n o => { o with minSwitchAlts := n }]

/-- Reads the options of the tool. -/
def ToolOptions.reader : Reader ToolOptions := record "ToolOptions" table {}

/-- The settings of the tool's command. -/
def ToolCommand.table : List (Member ToolCommand) :=
  [.of "program" text fun s c => { c with program := s },
    .of "args" (listOf text) fun l c => { c with args := l }]

/-- Reads the command of the tool. -/
def ToolCommand.reader : Reader ToolCommand := record "ToolCommand" table {}

/-- The settings of a configuration. -/
def BuildConfig.table : List (Member BuildConfig) :=
  [.of "source-dir" Path.reader fun p c => { c with sourceDir := p },
    .of "output-dir" Path.reader fun p c => { c with outputDir := p },
    .of "lib-dir" (optional Path.reader) fun p c => { c with libDir := p },
    .of "includes" PatternSet.reader fun s c => { c with includes := s },
    .of "excludes" PatternSet.reader fun s c => { c with excludes := s },
    .of "default-excludes" flag fun b c => { c with defaultExcludes := b },
    .of "options" ToolOptions.reader fun o c => { c with options := o },
    .of "tool" ToolCommand.reader fun t c => { c with tool := t }]

/-- Reads a configuration. -/
def BuildConfig.reader : Reader BuildConfig := record "BuildConfig" table {}

/-- The configuration that a text gives. -/
def BuildConfig.ofText (text : String) : Except ConfigError BuildConfig :=
  (reader.run text.toList).mapError (.malformed text)

/-- The set of patterns that a text gives. -/
def PatternSet.ofText (text : String) : Except Fault PatternSet := reader.run text.toList

end GrammarBatch
