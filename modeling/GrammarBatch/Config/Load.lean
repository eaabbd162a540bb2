import GrammarBatch.Config.Absolute
import GrammarBatch.Config.Overrides
import GrammarBatch.Config.Reader
import GrammarBatch.Files.Resolve

/-!
# Configuration files

* `BuildConfig.load`: the configuration in a file, its directories read from the directory of the file;
* `BuildConfig.prepare`: the configuration for a command: the one in the file that is named, or the
  default, with the overrides laid over it and every directory spelled out.
-/

namespace GrammarBatch.BuildConfig

/-- The configuration in a file. -/
def load (fs : FileSystem) (current : Place) (path : Path) : Except ConfigError BuildConfig := do
  let text ← (fs.readText current path).mapError (.unreadable path)
  let c ← ofText text
  return c.rootedAt (path.parent?.getD ⟨[]⟩)

/-- The configuration for a command. -/
def prepare (fs : FileSystem) (current : Place) (path : Option Path) (o : Overrides) :
    Except ConfigError BuildConfig := do
  let base ← match path with
    | some path => load fs current path
    | none => pure {}
  (o.apply base).absolute (fs.pathOf? current)

end GrammarBatch.BuildConfig
