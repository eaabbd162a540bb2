import GrammarBatch.Path.Basic

/-!
# Places

A `Place` is where an entry of a file system is: the names that lead to it from the root.

* `Place.root`, `Place.child`, `Place.parent`: the moves between places;
* `Place.isWithin`: whether one place is another one or below it;
* `Place.toPath`: the absolute path of a place.

The number of names is kept beside them. Places of different depth are told apart by it, and most of those
of the same depth by the innermost name, so it is rare that many names have to be compared.
-/

namespace GrammarBatch

/-- Where an entry is. -/
structure Place where
  depth : Nat
  /-- The names that lead there from the root, the innermost first. -/
  names : List Name
  length_names : names.length = depth
deriving DecidableEq

namespace Place

/-- The root directory. -/
def root : Place := ⟨0, [], rfl⟩

/-- The entry of that name in the directory at the place. -/
def child (d : Place) (n : Name) : Place := ⟨d.depth + 1, n :: d.names, by simp [d.length_names]⟩

/-- The directory around the place; the root is in itself. -/
def parent (p : Place) : Place := ⟨p.depth - 1, p.names.tail, by simp [p.length_names]⟩

/-- The place that the names lead to, the innermost first. -/
def ofNames (names : List Name) : Place := ⟨names.length, names, rfl⟩

/-- Whether the place is the directory or lies below it. -/
def isWithin (p d : Place) : Bool := d.names.isSuffixOf p.names

/-- The absolute path of the place. -/
def toPath (p : Place) : Path := ⟨slash :: (Path.ofNames p.names.reverse).bytes⟩

@[ext] theorem ext_names {p q : Place} (h : p.names = q.names) : p = q := by
  obtain ⟨d, l, hp⟩ := p
  obtain ⟨e, m, hq⟩ := q
  subst hp hq h
  rfl

@[simp] theorem names_root : root.names = [] := rfl

@[simp] theorem depth_root : root.depth = 0 := rfl

@[simp] theorem names_child (d : Place) (n : Name) : (d.child n).names = n :: d.names := rfl

@[simp] theorem depth_child (d : Place) (n : Name) : (d.child n).depth = d.depth + 1 := rfl

@[simp] theorem names_parent (p : Place) : p.parent.names = p.names.tail := rfl

@[simp] theorem parent_child (d : Place) (n : Name) : (d.child n).parent = d := ext_names rfl

@[simp] theorem names_ofNames (l : List Name) : (ofNames l).names = l := rfl

theorem child_ne_root (d : Place) (n : Name) : d.child n ≠ root := fun h => by cases congrArg depth h

end Place

end GrammarBatch
