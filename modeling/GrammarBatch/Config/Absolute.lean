import GrammarBatch.Config.Basic
import GrammarBatch.Config.Error

/-!
# Configurations that do not depend on the current directory

The tool runs in the source directory, so the directories it is given must not depend on where the pass
was started. `BuildConfig.absolute` spells them out; the first empty one is an error. So is the first
relative one, where the current directory has no path because it was removed.
-/

namespace GrammarBatch

/-- The directory spelled out, read from `current`, the path of the current directory. -/
def Path.resolve (current : Option Path) (p : Path) : Except ConfigError Path :=
  match p.absolute? (current.getD ⟨[]⟩) with
  | none => .error (.unresolved p .emptyPath)
  | some q => if current = none ∧ p.isAbsolute = false then .error (.unresolved p .notFound) else .ok q

/-- The configuration with every directory spelled out, read from `current`. -/
def BuildConfig.absolute (current : Option Path) (c : BuildConfig) : Except ConfigError BuildConfig := do
  let sourceDir ← Path.resolve current c.sourceDir
  let outputDir ← Path.resolve current c.outputDir
  let libDir ← c.libDir.mapM (Path.resolve current)
  return { c with sourceDir, outputDir, libDir }

end GrammarBatch
