import GrammarBatch.Files.Resolve

/-!
# Making directories

* `FileSystem.makeDirectory`: makes one directory, where nothing is yet;
* `FileSystem.makeDirectories`: makes a directory and those that lead to it, as far as they are missing.

The directories that were made before a failure stay, so the new file system is given in either case. A
path is not read again from its beginning where the place of the directory around it is already known.
-/

namespace GrammarBatch

/-- The moves to a directory that is to be made, where a trailing slash does not count. -/
def Path.makingRoute (p : Path) : List Component := (if p.isAbsolute then [.root] else []) ++ p.parts

/-- The name that the path adds to the moves of another one, if that is all it adds. -/
def Path.nameAfter? (p around : Path) : Option Name :=
  match p.makingRoute.getLast? with
  | some (.name n) => if p.makingRoute.dropLast = around.makingRoute then some n else none
  | _ => none

namespace FileSystem

/-- Makes a directory of that name in the directory at the place, and tells where it is. -/
def addDirectory (fs : FileSystem) (d : Place) (n : Name) : Except SystemError (FileSystem × Place) :=
  if maxName < n.bytes.length then .error .nameTooLong
  else if (fs.get? (d.child n)).isSome then .error .alreadyExists
  else .ok (fs.insert (d.child n) .directory, d.child n)

/-- Makes one directory, and tells where it is. The root is there even if the current directory is not. -/
def makeDirectory (fs : FileSystem) (current : Place) (p : Path) : Except SystemError (FileSystem × Place) :=
  match pathFault? p with
  | some e => .error e
  | none =>
    match fs.follow true maxLinks (if p.isAbsolute then .root else current) p.makingRoute.dropLast with
    | .error e => .error e
    | .ok (d, .directory) =>
      match p.makingRoute.getLast? with
      | some (.name n) => fs.addDirectory d n
      | _ => .error .alreadyExists
    | .ok _ => .error .notADirectory

/-- Takes a failure to make the directory back if it is there. -/
def orFound (fs : FileSystem) (current : Place) (p : Path) :
    Except SystemError (FileSystem × Place) → FileSystem × Except SystemError Place
  | .ok (fs, d) => (fs, .ok d)
  | .error e =>
    match fs.find current p true with
    | .ok (d, .directory) => (fs, .ok d)
    | _ => (fs, .error e)

/-- Makes a directory and, where it has none, the directory around it first; tells where it is. A path has
fewer than `limit` directories around it. -/
def makeDirectoriesWithin (limit : Nat) (fs : FileSystem) (current : Place) (p : Path) :
    FileSystem × Except SystemError Place :=
  match limit with
  | 0 => (fs, .error .notFound)
  | limit + 1 =>
    if p.bytes = [] then (fs, .ok current)
    else
      match fs.makeDirectory current p with
      | .error .notFound =>
        match p.parent? with
        | none => (fs, .error .notFound)
        | some around =>
          match makeDirectoriesWithin limit fs current around with
          | (fs, .ok d) =>
            match p.nameAfter? around with
            | some n => fs.orFound current p (fs.addDirectory d n)
            | none => fs.orFound current p (fs.makeDirectory current p)
          | (fs, .error e) => (fs, .error e)
      | made => fs.orFound current p made

/-- Makes a directory and those that lead to it. Each path around another one is shorter. -/
def makeDirectories (fs : FileSystem) (current : Place) (p : Path) : FileSystem × Except SystemError Unit :=
  let (fs, made) := makeDirectoriesWithin (p.bytes.length + 1) fs current p
  (fs, made.map fun _ => ())

end FileSystem

end GrammarBatch
