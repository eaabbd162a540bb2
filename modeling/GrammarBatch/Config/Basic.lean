import GrammarBatch.Glob.PatternSet
import GrammarBatch.Path.Basic
import GrammarBatch.SystemError

/-!
# Build configurations

* `MessageFormat`, `ToolOptions`, `ToolCommand`: what the grammar tool is asked for, and the command that
  starts it;
* `BuildConfig`: everything one pass needs, with defaults for all of it;
* `BuildConfig.libraryDirectory`: the directory of imported grammars;
* `BuildConfig.rootedAt`, `BuildConfig.absolute`: the directories read from another directory, and spelled
  out from the root.
-/

namespace GrammarBatch

/-- The layout of the tool's messages. -/
inductive MessageFormat where
  /-- The kind and its number first: `error(100): T.g:3:4: …`. -/
  | antlr
  /-- The place first: `T.g:3:4: error 100: …`. -/
  | gnu
  /-- The place first, in brackets: `T.g(3,4) : error 100: …`. -/
  | vs2005
deriving DecidableEq, Repr

namespace MessageFormat

/-- The name of the format. -/
def name : MessageFormat → String
  | antlr => "antlr"
  | gnu => "gnu"
  | vs2005 => "vs2005"

/-- Every format, in the order in which they are listed. -/
def all : List MessageFormat := [antlr, gnu, vs2005]

/-- Every format with its name. -/
def named : List (String × MessageFormat) := all.map fun f => (f.name, f)

/-- The format of a name. -/
def ofName? (s : String) : Option MessageFormat := named.lookup s

instance : Inhabited MessageFormat := ⟨antlr⟩

end MessageFormat

/-- The options of the grammar tool. -/
structure ToolOptions where
  report : Bool := false
  /-- Print each grammar without its actions. -/
  printGrammar : Bool := false
  /-- Generate parsers that emit debugging events. -/
  debug : Bool := false
  profile : Bool := false
  /-- Draw the nondeterministic automaton of each rule. -/
  nfa : Bool := false
  /-- Draw the deterministic automaton of each decision. -/
  dfa : Bool := false
  trace : Bool := false
  messageFormat : MessageFormat := .antlr
  verbose : Bool := true
  /-- The largest decision still generated as a switch. -/
  maxSwitchCaseLabels : UInt32 := 300
  /-- The smallest decision generated as a switch. -/
  minSwitchAlts : UInt32 := 3
deriving DecidableEq, Repr, Inhabited

/-- The command that starts the grammar tool. -/
structure ToolCommand where
  program : String := "antlr3"
  /-- The arguments before the generated ones. -/
  args : List String := []
deriving DecidableEq, Repr, Inhabited

/-- The name of the directory of imported grammars. -/
def importsName : Name := .ofString "imports"

/-- Everything one pass needs. -/
structure BuildConfig where
  sourceDir : Path := .ofString "src/grammars"
  outputDir : Path := .ofString "target/generated-sources/grammars"
  /-- The directory of imported grammars and token vocabularies, if it is not the usual one. -/
  libDir : Option Path := none
  /-- The patterns of wanted grammars; without any, the default include. -/
  includes : PatternSet := ∅
  excludes : PatternSet := ∅
  /-- Whether version control data and editor backups are unwanted too. -/
  defaultExcludes : Bool := true
  options : ToolOptions := {}
  tool : ToolCommand := {}
deriving DecidableEq, Inhabited

namespace BuildConfig

/-- The directory of imported grammars: below the source directory unless configured. -/
def libraryDirectory (c : BuildConfig) : Path := c.libDir.getD (c.sourceDir.join ⟨importsName.bytes⟩)

/-- The configuration with every directory read from `base`. -/
def rootedAt (base : Path) (c : BuildConfig) : BuildConfig :=
  { c with
    sourceDir := base.join c.sourceDir
    outputDir := base.join c.outputDir
    libDir := c.libDir.map base.join }

end BuildConfig

end GrammarBatch
