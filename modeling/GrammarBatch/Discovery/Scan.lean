import GrammarBatch.Discovery.Filter
import GrammarBatch.Files.Walk
import GrammarBatch.Path.Grammar

/-!
# Finding the grammars

`Filter.scan` lists the grammars below a directory: the files that the filter wants, ordered by the names
that lead to them. One failure anywhere below the directory fails the whole scan, so a list is never
missing a part.
-/

namespace GrammarBatch

/-- Why a directory could not be scanned. -/
structure ScanError where
  root : Path
  cause : WalkError
deriving DecidableEq

namespace ScanError

/-- What is said about the failure. -/
def message (e : ScanError) : String := "failed to walk source directory '" ++ e.root.display ++ "'"

/-- The causes of the failure. -/
def causes (e : ScanError) : List String := e.cause.message :: e.cause.causes

end ScanError

/-- The names that lead to a grammar. -/
def GrammarPath.names (g : GrammarPath) : List Name := g.folders ++ [g.fileName]

namespace Filter

/-- Whether the grammar is wanted, judged by the text of its path. -/
def wants (f : Filter) (g : GrammarPath) : Bool := f.accepts g.toPath.display

/-- The grammars below a directory. -/
def scan (f : Filter) (fs : FileSystem) (current : Place) (root : Path) :
    Except ScanError (List GrammarPath) :=
  match fs.walk current root with
  | .error e => .error ⟨root, e⟩
  | .ok ways =>
    let found := (ways.filterMap GrammarPath.ofNames?).filter f.wants
    .ok (found.mergeSort fun g h => (compare g.names h.names).isLE)

end Filter

end GrammarBatch
