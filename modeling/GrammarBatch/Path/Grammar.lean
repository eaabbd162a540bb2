import GrammarBatch.Path.Basic

/-!
# Grammar paths

A grammar is named by its path below the source directory. The same directories below the output
directory receive what is generated for it, so that the output tree has the shape of the source tree.

* `GrammarPath.between?`: the grammar path of a file below a directory, seen through their parts alone;
* `GrammarPath.toPath`, `GrammarPath.display`: the path and the text handed on;
* `GrammarPath.inDirectory`, `GrammarPath.outputDirectory`: the file below a source directory, and the
  place of its results below an output directory.
-/

namespace GrammarBatch

/-- The path of a grammar below its source directory. -/
structure GrammarPath where
  folders : List Name
  fileName : Name
deriving DecidableEq

namespace GrammarPath

/-- The names that the parts are, if they are nothing but names. -/
def names? : List Component → Option (List Name)
  | [] => some []
  | .name n :: cs => (names? cs).map (n :: ·)
  | _ :: _ => none

/-- The last name as the file, the others as its directories. -/
def ofNames? (names : List Name) : Option GrammarPath :=
  names.getLast?.map fun n => ⟨names.dropLast, n⟩

/-- The path of `file` below `root`, unless the file is not strictly below it. -/
def between? (root file : Path) : Option GrammarPath := do
  let rest ← root.components.isPrefixOf? file.components
  let names ← names? rest
  ofNames? names

/-- Grammar paths are ordered by their directories, then by their names. -/
instance : Ord GrammarPath where
  compare a b := (compare a.folders b.folders).then (compare a.fileName b.fileName)

/-- Whether the file lies in the source directory itself. -/
def isAtRoot (g : GrammarPath) : Bool := g.folders.isEmpty

/-- The directories as a path. -/
def folder (g : GrammarPath) : Path := Path.ofNames g.folders

/-- The text of the directories, with a slash after them unless there are none. -/
def folderText (g : GrammarPath) : String :=
  if g.isAtRoot then "" else g.folder.display ++ "/"

/-- The path below the source directory. -/
def toPath (g : GrammarPath) : Path := g.folder.join ⟨g.fileName.bytes⟩

/-- The text shown for the path. -/
def display (g : GrammarPath) : String := g.folderText ++ g.fileName.display

/-- The file below a source directory. -/
def inDirectory (g : GrammarPath) (root : Path) : Path := root.join g.toPath

/-- The directory below an output directory that receives what is generated. -/
def outputDirectory (g : GrammarPath) (output : Path) : Path :=
  if g.isAtRoot then output else output.join g.folder

end GrammarPath

/-- Two paths of which the one was expected to lie strictly below the other. -/
structure OutsideRoot where
  root : Path
  /-- The file that is not below it. -/
  file : Path
deriving DecidableEq

/-- What is said about a file outside the directory it was looked for in. -/
def OutsideRoot.message (e : OutsideRoot) : String :=
  "expected '" ++ e.file.display ++ "' to be prefixed with '" ++ e.root.display ++
    "' (scanner must only yield files under the root it walked)"

/-- The grammar path of a file that is expected below `root`. -/
def GrammarPath.ofFile (root file : Path) : Except OutsideRoot GrammarPath :=
  match between? root file with
  | some g => .ok g
  | none => .error ⟨root, file⟩

end GrammarBatch
