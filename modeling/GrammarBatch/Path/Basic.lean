import GrammarBatch.Path.Name

/-!
# Paths

A path is a byte string with slashes in it. It is kept as written; what it says is seen through

* `Path.components`: its parts without repeated slashes, inner `.` and a trailing slash, which is also
  how paths are compared (`Path.compare`);
* `Path.route`: every move it asks of the system, where `.` and a trailing slash do count.

The operations work on the text and keep its spelling: `Path.join`, `Path.parent?`, `Path.fileName?`,
and `Path.absolute?`, which spells out a path from the current directory without looking at any file.
-/

namespace GrammarBatch

/-- A path, as written. -/
structure Path where
  bytes : Bytes
deriving DecidableEq

/-- One part of a path. -/
inductive Component where
  | root
  /-- The directory itself, written `.`. -/
  | here
  /-- The parent directory, written `..`. -/
  | up
  | name (n : Name)
deriving DecidableEq

namespace Component

/-- The text of the part as a path of its own. -/
def bytes : Component → Bytes
  | root => [slash]
  | here => [dot]
  | up => [dot, dot]
  | name n => n.bytes

/-- The part that a piece between slashes spells, if it spells any. -/
def ofPiece? (b : Bytes) : Option Component :=
  if b = [] then none
  else if b = [dot] then some here
  else if b = [dot, dot] then some up
  else (Name.ofBytes? b).map name

/-- The position of each kind of part in the order. -/
def rank : Component → Nat
  | root => 0
  | here => 1
  | up => 2
  | name _ => 3

/-- Parts are ordered by their kind, names by their bytes. -/
instance : Ord Component where
  compare
    | name a, name b => compare a b
    | a, b => compare a.rank b.rank

end Component

namespace Path

/-- The path with the given text. -/
def ofString (s : String) : Path := ⟨Utf8.encode s⟩

/-- The text of the path, if its bytes are one. -/
def text? (p : Path) : Option String := Utf8.decode? p.bytes

/-- The text shown for the path. -/
def display (p : Path) : String := Utf8.decodeLossy p.bytes

/-- Whether the path starts at the root. -/
def isAbsolute (p : Path) : Bool := p.bytes.head? == some slash

/-- Whether the path ends in a slash. -/
def endsInSlash (p : Path) : Bool := p.bytes.getLast? == some slash

/-- The pieces between the slashes. -/
def pieces (p : Path) : List Bytes := p.bytes.splitOn slash

/-- The parts spelled by the pieces. -/
def parts (p : Path) : List Component := p.pieces.filterMap Component.ofPiece?

/-- The parts of the path. A `.` counts only where the path begins with it. -/
def components (p : Path) : List Component :=
  if p.isAbsolute then .root :: p.parts.filter (· != .here)
  else match p.pieces with
    | [] => []
    | first :: _ =>
      if first = [dot] then .here :: p.parts.filter (· != .here) else p.parts.filter (· != .here)

/-- The moves that the path spells, in order. A trailing slash asks for a directory, as `.` does. -/
def route (p : Path) : List Component :=
  (if p.isAbsolute then [.root] else []) ++ p.parts ++ (if p.endsInSlash then [.here] else [])

/-- Paths are ordered part by part, whatever their spelling. -/
def compare (p q : Path) : Ordering := Ord.compare p.components q.components

/-- The path that `q` names when it is read from `p`. -/
def join (p q : Path) : Path :=
  if q.isAbsolute then q
  else if p.bytes = [] ∨ p.endsInSlash then ⟨p.bytes ++ q.bytes⟩
  else ⟨p.bytes ++ slash :: q.bytes⟩

/-- The pieces with slashes between them. -/
def ofPieces (pieces : List Bytes) : Path := ⟨[slash].intercalate pieces⟩

/-- The names put together with single slashes. -/
def ofNames (names : List Name) : Path := ofPieces (names.map (·.bytes))

/-- The last part, if it is a name. -/
def fileName? (p : Path) : Option Name :=
  match p.components.getLast? with
  | some (.name n) => some n
  | _ => none

/-- The pieces without those at the end that spell no part of a longer path. -/
def dropIdle (pieces : List Bytes) : List Bytes :=
  (pieces.reverse.dropWhile fun b => b = [] ∨ b = [dot]).reverse

/-- The path without its last part, spelled as before; `none` for the root and the empty path. -/
def parent? (p : Path) : Option Path :=
  match p.pieces with
  | [] => none
  | first :: rest =>
    match dropIdle rest with
    | [] => if first = [] then none else some ⟨[]⟩
    | rest =>
      let rest := dropIdle rest.dropLast
      if p.isAbsolute then some ⟨slash :: (ofPieces rest).bytes⟩
      else some (ofPieces (first :: rest))

/-- Whether the path begins with exactly two slashes. -/
def hasDoubleRoot (p : Path) : Bool :=
  match p.bytes with
  | a :: b :: rest => a == slash && b == slash && rest.head? != some slash
  | _ => false

/-- The path spelled out from the root, read from the directory `current`; `none` for the empty path.
Repeated slashes and `.` go, while `..`, a trailing slash and exactly two leading slashes stay. -/
def absolute? (p current : Path) : Option Path :=
  if p.bytes = [] then none
  else
    let parts := p.components.filter fun c => c != .here && c != .root
    let start := if p.hasDoubleRoot then ⟨[slash, slash]⟩ else if p.isAbsolute then ⟨[slash]⟩ else current
    let spelled := if parts = [] then start else start.join (ofPieces (parts.map Component.bytes))
    some (if p.endsInSlash then spelled.join ⟨[]⟩ else spelled)

instance : Inhabited Path := ⟨⟨[]⟩⟩

end Path

end GrammarBatch
