import GrammarBatch.Files.Resolve

/-!
# Walking directory trees

`FileSystem.walk` finds every file below a directory. Symbolic links are followed; one that leads nowhere
is a failure, and so is one that leads back to a directory that is just being walked. Each file is found
once for each way that leads to it, and a way is the list of names from the walked directory down.

The walk ends: a link only ever leads to a directory that is not being walked yet, of which there are
finitely many, and without links it can only go down.
-/

namespace GrammarBatch

/-- Why a walk failed. -/
inductive WalkError where
  | refused (path : Path) (cause : SystemError)
  /-- The path leads back to a directory that is being walked. -/
  | loop (path ancestor : Path)
deriving DecidableEq

namespace WalkError

/-- What is said about the failure. -/
def message : WalkError → String
  | refused path cause => "IO error for operation on " ++ path.display ++ ": " ++ cause.message
  | loop path ancestor =>
    "File system loop found: " ++ path.display ++ " points to an ancestor " ++ ancestor.display

/-- The causes of the failure. -/
def causes : WalkError → List String
  | refused _ cause => [cause.message]
  | loop .. => []

end WalkError

/-- A directory that is being walked: where it is, and the path that led there. -/
structure Walked where
  place : Place
  path : Path
deriving DecidableEq

namespace FileSystem

/-- Every directory. -/
def directories (fs : FileSystem) : List Place :=
  .root :: (fs.entries.filter (·.2 = .directory)).map Prod.fst

/-- The directories that are not being walked. -/
def unwalked (fs : FileSystem) (stack : List Walked) : List Place :=
  fs.directories.filter fun p => !(stack.map (·.place)).contains p

/-- The depth of the deepest place. -/
def depth (fs : FileSystem) : Nat := (fs.entries.map (·.1.depth)).foldr max 0

theorem eq_child_of_nameIn? {d p : Place} {n : Name} (h : nameIn? d p = some n) : p = d.child n := by
  unfold nameIn? at h
  split at h
  · cases h
  · split at h
    · cases h
      assumption
    · cases h

theorem mem_entries_of_mem_children {fs : FileSystem} {d : Place} {n : Name} {e : Entry}
    (h : (n, e) ∈ fs.children d) : (d.child n, e) ∈ fs.entries := by
  obtain ⟨⟨p, e'⟩, hp, heq⟩ := List.mem_filterMap.1 h
  obtain ⟨m, hm, he⟩ := Option.map_eq_some_iff.1 heq
  cases he
  exact eq_child_of_nameIn? hm ▸ hp

theorem depth_le_depth {fs : FileSystem} {p : Place} {e : Entry} (h : (p, e) ∈ fs.entries) :
    p.depth ≤ fs.depth := by
  unfold depth
  generalize fs.entries = l at h
  induction l with
  | nil => cases h
  | cons x l ih =>
    simp only [List.map_cons, List.foldr_cons]
    rcases List.mem_cons.1 h with rfl | h
    · exact Nat.le_max_left _ _
    · exact Nat.le_trans (ih h) (Nat.le_max_right _ _)

theorem length_unwalked_cons_le (fs : FileSystem) (w : Walked) (stack : List Walked) :
    (fs.unwalked (w :: stack)).length ≤ (fs.unwalked stack).length := by
  unfold unwalked
  rw [← List.countP_eq_length_filter, ← List.countP_eq_length_filter]
  refine List.countP_mono_left fun p _ h => ?_
  simp only [List.map_cons, List.contains_cons, Bool.not_or, Bool.and_eq_true] at h
  exact h.2

theorem length_unwalked_cons_lt {fs : FileSystem} {w : Walked} {stack : List Walked}
    (hw : w.place ∈ fs.directories) (hs : w.place ∉ stack.map (·.place)) :
    (fs.unwalked (w :: stack)).length < (fs.unwalked stack).length := by
  have h : fs.unwalked (w :: stack) = (fs.unwalked stack).filter (· != w.place) := by
    simp only [unwalked, List.filter_filter]
    congr 1
    funext p
    simp only [List.map_cons, List.contains_cons, Bool.not_or]
    rfl
  rw [h]
  refine List.length_filter_lt_length_iff_exists.2 ⟨w.place, ?_, by simp⟩
  exact List.mem_filter.2 ⟨hw, by simpa using hs⟩

theorem mem_directories_of_get? {fs : FileSystem} {p : Place} (h : fs.get? p = some .directory) :
    p ∈ fs.directories := by
  unfold get? at h
  split at h
  · subst_vars
    exact List.mem_cons_self
  · refine List.mem_cons_of_mem _ (List.mem_map.2 ⟨(p, .directory), ?_, rfl⟩)
    refine List.mem_filter.2 ⟨?_, by simp⟩
    obtain ⟨l, r, hl, _⟩ := List.lookup_eq_some_iff.1 h
    rw [hl]
    simp

theorem get?_of_follow {fs : FileSystem} {atEnd : Bool} {links : Nat} {p q : Place}
    {moves : List Component} {e : Entry} (h : fs.follow atEnd links p moves = .ok (q, e)) :
    fs.get? q = some e := by
  fun_induction follow fs atEnd links p moves with
  | case1 p e' hp => cases h; assumption
  | case2 => cases h
  | case3 _ _ _ ih => exact ih h
  | case4 _ _ _ _ ih => exact ih h
  | case5 => cases h
  | case6 _ _ _ _ ih => exact ih h
  | case7 => cases h
  | case8 => cases h
  | case9 => cases h
  | case10 => cases h
  | case11 => cases h; assumption
  | case12 => cases h
  | case13 _ _ _ _ _ _ _ _ _ ih => exact ih h
  | case14 _ _ _ _ _ _ _ _ _ ih => exact ih h

theorem get?_of_find {fs : FileSystem} {current : Place} {p : Path} {atEnd : Bool} {q : Place}
    {e : Entry} (h : fs.find current p atEnd = .ok (q, e)) : fs.get? q = some e := by
  simp only [find] at h
  split at h
  · cases h
  · exact get?_of_follow h

/-- Walks the directory on top of the stack, which was reached by the names of `way`. -/
def walkFrom (fs : FileSystem) (current : Place) (way : List Name) (top : Walked) (stack : List Walked) :
    Except WalkError (List (List Name)) := do
  if pathBound ≤ top.path.bytes.length then throw (.refused top.path .nameTooLong)
  let found ← (fs.children top.place).attach.mapM fun ⟨(n, e), _h⟩ => do
    let path := top.path.join ⟨n.bytes⟩
    match e with
    | .file _ => return [way ++ [n]]
    | .special => return []
    | .directory => walkFrom fs current (way ++ [n]) ⟨top.place.child n, path⟩ (top :: stack)
    | .link _ =>
      match _hf : fs.find current path true with
      | .error e => throw (.refused path e)
      | .ok (p, .directory) =>
        match _hs : (top :: stack).find? (·.place == p) with
        | some w => throw (.loop path w.path)
        | none => walkFrom fs current (way ++ [n]) ⟨p, path⟩ (top :: stack)
      | .ok (_, .file _) => return [way ++ [n]]
      | .ok _ => return []
  return found.flatten
termination_by ((fs.unwalked (top :: stack)).length, fs.depth - top.place.depth)
decreasing_by
  · have hd := depth_le_depth (mem_entries_of_mem_children _h)
    rcases Nat.lt_or_eq_of_le (length_unwalked_cons_le fs ⟨top.place.child n, path⟩ (top :: stack)) with h | h
    · exact Prod.Lex.left _ _ h
    · rw [h]
      refine Prod.Lex.right _ ?_
      simp only [Place.depth_child] at hd ⊢
      omega
  · refine Prod.Lex.left _ _ (length_unwalked_cons_lt ?_ ?_)
    · exact mem_directories_of_get? (get?_of_find _hf)
    · intro hm
      obtain ⟨w, hw, hp⟩ := List.mem_map.1 hm
      exact absurd (List.find?_eq_none.1 _hs w hw) (by simpa using hp)

/-- The ways to all files below the directory that the path leads to. A path to a file has none. -/
def walk (fs : FileSystem) (current : Place) (root : Path) : Except WalkError (List (List Name)) :=
  match fs.find current root true with
  | .error e => .error (.refused root e)
  | .ok (p, .directory) => fs.walkFrom current [] ⟨p, root⟩ []
  | .ok _ => .ok []

end FileSystem

end GrammarBatch
