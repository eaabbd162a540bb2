import GrammarBatch.Files.Basic
import GrammarBatch.SystemError

/-!
# Where paths lead

* `FileSystem.follow`: makes the moves of a path one after the other from a place;
* `FileSystem.find`: what a path leads to when it is read from a directory.

Every move but the first one to the root needs a directory to start from. A symbolic link is replaced by
the moves of its target, read from the directory that holds the link. No more than forty links are
followed on one path. Whether a link at the very end is followed is up to the caller.
-/

namespace GrammarBatch.FileSystem

/-- The length of the longest name. -/
def maxName : Nat := 255

/-- The length that every path is below. -/
def pathBound : Nat := 4096

/-- The number of links that are followed on one path. -/
def maxLinks : Nat := 40

/-- The innermost directory that is there among those that the names lead through, the innermost name
first. -/
def around (fs : FileSystem) : List Name → Place
  | [] => .root
  | _ :: names => if fs.isDirectoryAt (.ofNames names) then .ofNames names else fs.around names

/-- Makes the moves from a place; `links` more links may be followed. The move up leads to the directory
around, which is the next one unless the place was removed while it was in use. -/
def follow (fs : FileSystem) (atEnd : Bool) (links : Nat) (p : Place) (moves : List Component) :
    Except SystemError (Place × Entry) :=
  match moves with
  | [] =>
    match fs.get? p with
    | some e => .ok (p, e)
    | none => .error .notFound
  | .root :: moves => follow fs atEnd links .root moves
  | .here :: moves =>
    if fs.isDirectoryAt p then follow fs atEnd links p moves else .error .notADirectory
  | .up :: moves =>
    if fs.isDirectoryAt p then follow fs atEnd links (fs.around p.names) moves else .error .notADirectory
  | .name n :: moves =>
    if !fs.isDirectoryAt p then .error .notADirectory
    else if maxName < n.bytes.length then .error .nameTooLong
    else
      match fs.get? (p.child n) with
      | none => .error .notFound
      | some (.link target) =>
        if moves = [] ∧ atEnd = false then .ok (p.child n, .link target)
        else
          match links with
          | 0 => .error .tooManyLinks
          | links + 1 => follow fs atEnd links p (target.route ++ moves)
      | some _ => follow fs atEnd links (p.child n) moves
termination_by (links, moves.length)

/-- What is wrong with a path before any file is looked at. -/
def pathFault? (p : Path) : Option SystemError :=
  if p.bytes.contains 0 then some .zeroInPath
  else if p.bytes = [] then some .notFound
  else if pathBound ≤ p.bytes.length then some .nameTooLong
  else none

/-- What the path leads to from the directory `current`. A link at the end is followed if `atEnd` is
set. -/
def find (fs : FileSystem) (current : Place) (p : Path) (atEnd : Bool) :
    Except SystemError (Place × Entry) :=
  match pathFault? p with
  | some e => .error e
  | none => fs.follow atEnd maxLinks current p.route

/-- Whether the path leads to a directory. -/
def isDirectory (fs : FileSystem) (current : Place) (p : Path) : Bool :=
  match fs.find current p true with
  | .ok (_, .directory) => true
  | _ => false

/-- The bytes of the file that the path leads to. -/
def read (fs : FileSystem) (current : Place) (p : Path) : Except SystemError Bytes :=
  match fs.find current p true with
  | .ok (_, .file f) => .ok f.content
  | .ok (_, .special) => .ok []
  | .ok _ => .error .isADirectory
  | .error e => .error e

/-- The text of the file that the path leads to. -/
def readText (fs : FileSystem) (current : Place) (p : Path) : Except SystemError String := do
  match Utf8.decode? (← fs.read current p) with
  | some s => .ok s
  | none => .error .notText

end GrammarBatch.FileSystem
