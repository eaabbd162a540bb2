import GrammarBatch.Files.Place

/-!
# File systems

A file system says what is at each place.

* `Entry`: a directory, a file, a symbolic link or something else;
* `FileSystem.get?`, `FileSystem.children`: what is at a place, and what is in a directory;
* `FileSystem.pathOf?`: the path of a directory;
* `FileSystem.insert`, `FileSystem.removeBelow`: changes.

Each place occurs once, and the root is always a directory.
-/

namespace GrammarBatch

/-- How a program ends. -/
inductive Ending where
  | exit (status : Nat)
  | signal (number : Nat)
deriving DecidableEq, Repr

/-- What a program does when it runs: it prints, and ends. -/
structure Behaviour where
  stdout : Bytes := []
  stderr : Bytes := []
  ending : Ending := .exit 0
deriving DecidableEq

/-- A regular file. -/
structure File where
  content : Bytes
  executable : Bool
  /-- What happens when it is run, where that is known. -/
  behaviour : Option Behaviour
deriving DecidableEq

/-- What is at a place. -/
inductive Entry where
  | directory
  | file (f : File)
  | link (target : Path)
  /-- Something else, such as a device. There is nothing to read in it. -/
  | special
deriving DecidableEq

/-- What is at each place. -/
structure FileSystem where
  /-- The places below the root and what is there. -/
  entries : List (Place × Entry)
  nodup : (entries.map Prod.fst).Nodup

namespace FileSystem

/-- The file system with nothing in it. -/
def empty : FileSystem := ⟨[], List.nodup_nil⟩

instance : EmptyCollection FileSystem := ⟨empty⟩

instance : Inhabited FileSystem := ⟨empty⟩

/-- What is at the place. -/
def get? (fs : FileSystem) (p : Place) : Option Entry :=
  if p = .root then some .directory else fs.entries.lookup p

/-- Whether a directory is at the place. -/
def isDirectoryAt (fs : FileSystem) (p : Place) : Bool := fs.get? p = some .directory

/-- Whether there is a directory at each place that the names lead to, the innermost first. -/
def isWay (fs : FileSystem) : List Name → Bool
  | [] => true
  | n :: names => fs.isDirectoryAt (.ofNames (n :: names)) && fs.isWay names

/-- The path of the directory at the place, if one leads there. None leads to a directory that was removed
while it was in use. -/
def pathOf? (fs : FileSystem) (p : Place) : Option Path :=
  if fs.isWay p.names then some p.toPath else none

/-- The name that leads from the directory to the place, if the place is in it. -/
def nameIn? (d p : Place) : Option Name :=
  match p.names with
  | [] => none
  | n :: _ => if p = d.child n then some n else none

/-- The entries of a directory with their names. -/
def children (fs : FileSystem) (d : Place) : List (Name × Entry) :=
  fs.entries.filterMap fun (p, e) => (nameIn? d p).map fun n => (n, e)

theorem nodup_filter {l : List (Place × Entry)} (test : Place × Entry → Bool)
    (h : (l.map Prod.fst).Nodup) : ((l.filter test).map Prod.fst).Nodup :=
  (List.filter_sublist.map _).nodup h

/-- The file system with the entry at the place, in place of what was there. -/
def insert (fs : FileSystem) (p : Place) (e : Entry) : FileSystem where
  entries := (p, e) :: fs.entries.filter (·.1 != p)
  nodup := by
    refine List.nodup_cons.2 ⟨fun h => ?_, nodup_filter _ fs.nodup⟩
    obtain ⟨x, hx, hp⟩ := List.mem_map.1 h
    exact absurd hp (bne_iff_ne.1 (List.mem_filter.1 hx).2)

theorem lookup_filter (test : Place → Bool) (q : Place) (l : List (Place × Entry)) :
    (l.filter fun x => test x.1).lookup q = if test q then l.lookup q else none := by
  induction l with
  | nil => simp
  | cons x l ih =>
    obtain ⟨p, e⟩ := x
    by_cases hq : q = p
    · subst hq
      cases ht : test q <;> simp [ht, ih]
    · cases ht : test p <;> simp [ht, List.lookup_cons, beq_false_of_ne hq, ih]

theorem get?_insert_self (fs : FileSystem) {p : Place} (h : p ≠ .root) (e : Entry) :
    (fs.insert p e).get? p = some e := by
  simp [get?, insert, h]

theorem get?_insert_of_ne (fs : FileSystem) {p q : Place} (h : q ≠ p) (e : Entry) :
    (fs.insert p e).get? q = fs.get? q := by
  simp only [get?, insert, List.lookup_cons, beq_false_of_ne h]
  rw [lookup_filter (· != p), if_pos (bne_iff_ne.2 h)]

/-- The file system without the place and all that is below it. -/
def removeBelow (fs : FileSystem) (p : Place) : FileSystem where
  entries := fs.entries.filter fun x => !x.1.isWithin p
  nodup := nodup_filter _ fs.nodup

theorem get?_removeBelow (fs : FileSystem) (p : Place) {q : Place} (h : q ≠ .root) :
    (fs.removeBelow p).get? q = if q.isWithin p then none else fs.get? q := by
  simp only [get?, removeBelow, if_neg h]
  rw [lookup_filter fun q => !q.isWithin p]
  cases q.isWithin p <;> simp

end FileSystem

end GrammarBatch
