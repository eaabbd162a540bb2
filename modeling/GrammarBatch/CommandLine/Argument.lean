import GrammarBatch.Text.Utf8

/-!
# The arguments of the command line

* `Argument`: everything that can be given, with its names, its value and its help;
* `Scope`: the places where arguments stand: before the command, and after each command;
* `Scope.arguments`: what may be given there, in the order in which help lists it.
-/

namespace GrammarBatch.CommandLine

/-- Something that can be given on the command line. -/
inductive Argument where
  | verbose
  | quiet
  | help
  | version
  | config
  | sourceDir
  | outputDir
  | libDir
  | includePattern
  | excludePattern
  | noDefaultExcludes
  | report
  | printGrammar
  | debugCodegen
  | profile
  | nfa
  | dfa
  | trace
  | messageFormat
  | quietTool
  | maxSwitchCaseLabels
  | minSwitchAlts
  | tool
  | toolArg
  | json
deriving DecidableEq, Repr

namespace Argument

/-- The long name, without its dashes. -/
def long : Argument → String
  | verbose => "verbose"
  | quiet => "quiet"
  | help => "help"
  | version => "version"
  | config => "config"
  | sourceDir => "source-dir"
  | outputDir => "output-dir"
  | libDir => "lib-dir"
  | includePattern => "include"
  | excludePattern => "exclude"
  | noDefaultExcludes => "no-default-excludes"
  | report => "report"
  | printGrammar => "print-grammar"
  | debugCodegen => "debug-codegen"
  | profile => "profile"
  | nfa => "nfa"
  | dfa => "dfa"
  | trace => "trace"
  | messageFormat => "message-format"
  | quietTool => "quiet-tool"
  | maxSwitchCaseLabels => "max-switch-case-labels"
  | minSwitchAlts => "min-switch-alts"
  | tool => "tool"
  | toolArg => "tool-arg"
  | json => "json"

/-- The letter that stands for the name. -/
def short? : Argument → Option Char
  | verbose => some 'v'
  | quiet => some 'q'
  | help => some 'h'
  | version => some 'V'
  | config => some 'c'
  | includePattern => some 'i'
  | excludePattern => some 'e'
  | _ => none

/-- What the value is called, where the argument takes one. -/
def valueName? : Argument → Option String
  | config => some "FILE"
  | sourceDir | outputDir | libDir => some "DIR"
  | includePattern | excludePattern => some "PATTERN"
  | messageFormat => some "FORMAT"
  | maxSwitchCaseLabels | minSwitchAlts => some "N"
  | tool => some "PROGRAM"
  | toolArg => some "ARG"
  | _ => none

/-- Whether the argument takes a value. -/
def takesValue (a : Argument) : Bool := a.valueName?.isSome

/-- Whether the argument may be given more than once. -/
def isRepeatable : Argument → Bool
  | verbose | includePattern | excludePattern | toolArg => true
  | _ => false

/-- Whether the next argument is the value even if it looks like an argument of its own. -/
def takesAnything : Argument → Bool
  | toolArg => true
  | _ => false

/-- What the argument is for. -/
def purpose : Argument → String
  | verbose => "Verbosity level (-v info, -vv debug, -vvv trace)"
  | quiet => "Only report errors"
  | help => "Print help"
  | version => "Print version"
  | config => "JSON config file (relative paths resolve against its directory)"
  | sourceDir => "Grammar source root [default: src/grammars]"
  | outputDir => "Generated source root [default: target/generated-sources/grammars]"
  | libDir => "Imported grammars and .tokens files [default: <source-dir>/imports]"
  | includePattern => "Include pattern relative to the source root [default: **/*.g]"
  | excludePattern => "Exclude pattern relative to the source root (imports/** is always excluded)"
  | noDefaultExcludes => "Don't skip VCS metadata and editor backup files"
  | report => "Have the tool print a grammar report"
  | printGrammar => "Print grammars without actions"
  | debugCodegen => "Generate parsers that emit debugging events"
  | profile => "Generate parsers that compute profiling data"
  | nfa => "Emit NFA diagrams"
  | dfa => "Emit DFA diagrams"
  | trace => "Generate parsers that trace rule entry and exit"
  | messageFormat =>
    "Diagnostic format used by the tool [default: antlr] [possible values: antlr, gnu, vs2005]"
  | quietTool => "Don't pass -verbose to the tool"
  | maxSwitchCaseLabels => "Maximum case labels in a generated switch [default: 300]"
  | minSwitchAlts => "Minimum alternatives before a switch is generated [default: 3]"
  | tool => "Grammar tool to run [default: antlr3]"
  | toolArg => "Argument passed to the tool before the generated ones"
  | json => "Print discovered grammars as JSON"

/-- The argument as messages name it: with its value, or with dots where it is counted. -/
def display (a : Argument) : String :=
  "--" ++ a.long ++
    match a.valueName? with
    | some v => " <" ++ v ++ ">"
    | none => if a.isRepeatable then "..." else ""

end Argument

/-- A place where arguments stand. -/
inductive Scope where
  | top
  | build
  | scan
deriving DecidableEq, Repr

namespace Scope

/-- The arguments that may be given there. -/
def arguments : Scope → List Argument
  | top => [.verbose, .quiet, .help, .version]
  | build =>
    [.outputDir, .verbose, .libDir, .quiet, .config, .sourceDir, .includePattern, .excludePattern,
      .noDefaultExcludes, .report, .printGrammar, .debugCodegen, .profile, .nfa, .dfa, .trace,
      .messageFormat, .quietTool, .maxSwitchCaseLabels, .minSwitchAlts, .tool, .toolArg, .help]
  | scan =>
    [.json, .verbose, .config, .quiet, .sourceDir, .includePattern, .excludePattern,
      .noDefaultExcludes, .help]

/-- The argument with the long name. -/
def long? (s : Scope) (name : String) : Option Argument := s.arguments.find? (·.long == name)

/-- The argument with the letter. -/
def short? (s : Scope) (c : Char) : Option Argument := s.arguments.find? (·.short? == some c)

end Scope

/-- The word that stands for a command. -/
inductive Verb where
  | build
  | scan
  | help
deriving DecidableEq, Repr

namespace Verb

/-- The word. -/
def name : Verb → String
  | build => "build"
  | scan => "scan"
  | help => "help"

/-- Every verb, in the order in which help lists them. -/
def all : List Verb := [build, scan, help]

/-- The verb that an argument spells. -/
def ofBytes? (b : Bytes) : Option Verb := all.find? fun v => Utf8.encode v.name == b

/-- What the command is for. -/
def purpose : Verb → String
  | build => "Compile all grammars under the source root"
  | scan => "List the grammars a build would compile"
  | help => "Print this message or the help of the given subcommand(s)"

end Verb

end GrammarBatch.CommandLine
