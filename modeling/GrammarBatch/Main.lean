import GrammarBatch.Program

/-!
# The command on the disk

The command runs on the part of the disk that it looks at, which is read before the run: the
configuration file, the files that the tool's name may stand for, the output directory, and the tree of
the source directory. Directories that the run makes are made on the disk afterwards.

This front end starts no programs, so a tool that is found is reported as one that cannot be launched.
-/

namespace GrammarBatch.Disk

open CommandLine

/-- What is at a place on the disk; the content of a file only if it is wanted. A link is taken to lead
where the system says, and to itself if the system cannot tell. -/
def entryAt (p : Place) (withContent : Bool) : IO (Option Entry) := do
  let path := (← IO.currentDir) / p.toPath.display
  try
    match (← path.symlinkMetadata).type with
    | .dir => return some .directory
    | .symlink =>
      try return some (.link (.ofString (← IO.FS.realPath path).toString))
      catch _ => return some (.link p.toPath)
    | .file =>
      let content ← if withContent then IO.FS.readBinFile path else pure ByteArray.empty
      return some (.file { content := content.data.toList, executable := true, behaviour := none })
    | .other => return some .special
  catch _ => return none

/-- The names that an absolute path without links spells. -/
def placeOf (p : Path) : Place :=
  .ofNames (p.components.filterMap fun c =>
    match c with
    | .name n => some n
    | _ => none).reverse

/-- Reads what lies on the way of some moves from a place: the file system with it, and where the way
ends. -/
partial def readWay (fs : FileSystem) (withContent : Bool) (p : Place) :
    List Component → IO (FileSystem × Place)
  | [] => return (fs, p)
  | .root :: moves => readWay fs withContent .root moves
  | .here :: moves => readWay fs withContent p moves
  | .up :: moves => readWay fs withContent p.parent moves
  | .name n :: moves => do
    match fs.get? (p.child n) with
    | some (.link target) => readWay fs withContent p (target.route ++ moves)
    | some _ => readWay fs withContent (p.child n) moves
    | none =>
      match ← entryAt (p.child n) withContent with
      | none => return (fs, p.child n)
      | some (.link target) =>
        let fs := fs.insert (p.child n) (.link target)
        if placeOf target = p.child n then return (fs, p.child n)
        else readWay fs withContent p (target.route ++ moves)
      | some e => readWay (fs.insert (p.child n) e) withContent (p.child n) moves

/-- Reads everything below a directory, and below the directories that links there lead to. -/
partial def readTree (fs : FileSystem) (p : Place) : IO FileSystem := do
  let path := (← IO.currentDir) / p.toPath.display
  let names ← try pure ((← path.readDir).map (·.fileName)) catch _ => pure #[]
  let mut fs := fs
  for text in names do
    if let some n := Name.ofBytes? (Utf8.encode text) then
      if (fs.get? (p.child n)).isNone then
        match ← entryAt (p.child n) false with
        | some .directory => fs ← readTree (fs.insert (p.child n) .directory) (p.child n)
        | some (.link target) =>
          fs := fs.insert (p.child n) (.link target)
          let isNew := (fs.get? (placeOf target)).isNone
          let (fs', q) ← readWay fs false p target.route
          fs := fs'
          if isNew && fs.isDirectoryAt q then fs ← readTree fs q
        | some e => fs := fs.insert (p.child n) e
        | none => pure ()
  return fs

/-- Reads the part of the disk that the command looks at. -/
def readFor (env : Environment) (argv : List Bytes) (fs : FileSystem) : IO FileSystem := do
  match Invocation.ofArguments argv with
  | .error _ => return fs
  | .ok i =>
    let mut fs := fs
    if let some p := i.task.config then
      fs := (← readWay fs true env.current p.route).1
    match BuildConfig.prepare fs env.current i.task.config i.task.overrides with
    | .error _ => return fs
    | .ok c =>
      for p in c.outputDir :: env.candidates fs c.tool.program do
        fs := (← readWay fs false env.current p.route).1
      let (fs', source) ← readWay fs false env.current c.sourceDir.route
      if fs'.isDirectoryAt source then readTree fs' source else return fs'

/-- Runs the command with the given arguments. -/
def run (args : List String) : IO UInt32 := do
  let argv := (programName :: args).map Utf8.encode
  let here := Path.ofString (← IO.currentDir).toString
  let searchPath := searchPathOf (Utf8.encode ((← IO.getEnv "PATH").getD ""))
  let (fs, current) ← readWay ∅ false .root here.route
  let env : Environment := { current, searchPath, home := .ofString ((← IO.getEnv "HOME").getD "") }
  let fs ← readFor env argv fs
  let r := Program.run env argv fs
  for (p, e) in r.course.files.entries.reverse do
    if e = .directory && (fs.get? p).isNone then IO.FS.createDirAll p.toPath.display
  (← IO.getStdout).putStr r.stdout
  (← IO.getStderr).putStr r.stderr
  return r.status.toUInt32

end GrammarBatch.Disk

/-- Runs the command. -/
def main (args : List String) : IO UInt32 := GrammarBatch.Disk.run args
