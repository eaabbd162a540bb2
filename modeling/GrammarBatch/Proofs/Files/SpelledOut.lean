import GrammarBatch.Proofs.Config.SpelledOut
import GrammarBatch.Proofs.Files.Arrives
import GrammarBatch.Proofs.Files.FromRoot

/-!
# Files whose paths are spelled out

* `FileSystem.Thinned`, `FileSystem.Arrives.thinned`: moves to the directory itself may be left out;
* `FileSystem.Arrives.of_thinned`: on the way to a directory, they may be put back in;
* `FileSystem.follow_from_root`: moves from a directory may be made from the root, through its names;
* `FileSystem.Arrives.getLast?_eq_name`: the last move to something that is no directory is a name;
* **`FileSystem.find_directory_absolute?_iff`**: a path leads to a directory exactly where it does when it is spelled
  out;
* **`FileSystem.readText_of_absolute?`**: a file can be read by the path that its path is spelled out as.
-/

namespace GrammarBatch.FileSystem

variable {fs : FileSystem} {current d p : Place} {path q here : Path} {e : Entry} {links : Nat}
  {moves moves' front : List Component}

/-- The moves, some of those to the directory itself left out. -/
inductive Thinned : List Component → List Component → Prop where
  | nil : Thinned [] []
  | keep {c : Component} {moves moves' : List Component} (h : Thinned moves moves') :
    Thinned (c :: moves) (c :: moves')
  | leave {moves moves' : List Component} (h : Thinned moves moves') : Thinned (.here :: moves) moves'

theorem Thinned.append_left (front : List Component) (h : Thinned moves moves') :
    Thinned (front ++ moves) (front ++ moves') := by
  induction front with
  | nil => exact h
  | cons c front ih => exact .keep ih

theorem thinned_filter (moves : List Component) : Thinned moves (moves.filter (· != .here)) := by
  induction moves with
  | nil => exact .nil
  | cons c moves ih =>
    by_cases hc : c = .here
    · subst hc
      exact .leave ih
    · rw [List.filter_cons_of_pos (by simp [hc])]
      exact .keep ih

theorem Arrives.thinned (h : fs.Arrives d e links p moves) (ht : Thinned moves moves') :
    fs.Arrives d e links p moves' := by
  induction h generalizing moves' with
  | done hd =>
    cases ht
    exact .done hd
  | root _ ih =>
    cases ht with
    | keep ht => exact .root (ih ht)
  | here hd _ ih =>
    cases ht with
    | keep ht => exact .here hd (ih ht)
    | leave ht => exact ih ht
  | up hd _ ih =>
    cases ht with
    | keep ht => exact .up hd (ih ht)
  | name hd hn hg hl _ ih =>
    cases ht with
    | keep ht => exact .name hd hn hg hl (ih ht)
  | link hd hn hg _ ih =>
    cases ht with
    | keep ht => exact .link hd hn hg (ih (ht.append_left _))

/-- A move to the directory itself may be made wherever a directory is left. -/
theorem Arrives.insert_here (h : fs.Arrives d .directory links p (front ++ moves))
    (hm : moves.head? ≠ some .root) : fs.Arrives d .directory links p (front ++ .here :: moves) := by
  generalize hall : front ++ moves = all at h
  -- `front` is used up one move at a time, and a link on the way puts its own moves in front of what is left of it
  induction h generalizing front with
  | done hd =>
    obtain ⟨rfl, rfl⟩ := List.append_eq_nil_iff.1 hall
    exact .here (decide_eq_true hd) (.done hd)
  | root h ih =>
    rcases List.append_eq_cons_iff.1 hall with ⟨rfl, rfl⟩ | ⟨front, rfl, hrest⟩
    · exact absurd rfl hm
    · exact .root (ih hrest.symm)
  | here hd h ih =>
    rcases List.append_eq_cons_iff.1 hall with ⟨rfl, rfl⟩ | ⟨front, rfl, hrest⟩
    · exact .here hd (.here hd h)
    · exact .here hd (ih hrest.symm)
  | up hd h ih =>
    rcases List.append_eq_cons_iff.1 hall with ⟨rfl, rfl⟩ | ⟨front, rfl, hrest⟩
    · exact .here hd (.up hd h)
    · exact .up hd (ih hrest.symm)
  | name hd hn hg hl h ih =>
    rcases List.append_eq_cons_iff.1 hall with ⟨rfl, rfl⟩ | ⟨front, rfl, hrest⟩
    · exact .here hd (.name hd hn hg hl h)
    · exact .name hd hn hg hl (ih hrest.symm)
  | @link _ _ _ _ target hd hn hg h ih =>
    rcases List.append_eq_cons_iff.1 hall with ⟨rfl, rfl⟩ | ⟨front, rfl, rfl⟩
    · exact .here hd (.link hd hn hg h)
    · have hinserted := ih (List.append_assoc target.route front moves)
      rw [List.append_assoc] at hinserted
      exact .link hd hn hg hinserted

theorem Arrives.of_thinned (front : List Component) (ht : Thinned moves moves') (hroot : .root ∉ moves)
    (h : fs.Arrives d .directory links p (front ++ moves')) : fs.Arrives d .directory links p (front ++ moves) := by
  induction ht generalizing front with
  | nil => exact h
  | keep _ ih =>
    rw [List.append_cons] at h ⊢
    exact ih _ (fun hc => hroot (List.mem_cons_of_mem _ hc)) h
  | @leave moves moves' _ ih =>
    have hroot' : .root ∉ moves := fun hc => hroot (List.mem_cons_of_mem _ hc)
    exact (ih front hroot' h).insert_here fun hm => hroot' (List.mem_of_mem_head? hm)

theorem arrives_filter_iff (hroot : .root ∉ moves) :
    fs.Arrives d .directory links p (moves.filter (· != .here)) ↔ fs.Arrives d .directory links p moves := by
  constructor
  · intro h
    exact Arrives.of_thinned [] (thinned_filter moves) hroot h
  · intro h
    exact h.thinned (thinned_filter moves)

/-- Moves from a directory may be made from the root, through the names that lead to it. -/
theorem follow_from_root (hw : fs.isWay p.names = true) (hnames : ∀ n ∈ p.names, n.bytes.length ≤ maxName)
    (atEnd : Bool) (links : Nat) (moves : List Component) :
    fs.follow atEnd links .root (p.names.reverse.map .name ++ moves) = fs.follow atEnd links p moves := by
  induction hp : p.names generalizing p moves with
  | nil =>
    obtain rfl : p = .root := Place.ext_names hp
    rfl
  | cons n names ih =>
    obtain rfl : p = (Place.ofNames names).child n := Place.ext_names hp
    have hway : fs.isWay names = true := isWay_tail hw
    have hname : fs.follow atEnd links (.ofNames names) (.name n :: moves) =
        fs.follow atEnd links ((Place.ofNames names).child n) moves :=
      follow_name_cons (isDirectoryAt_of_isWay hway) (not_lt.2 (hnames n List.mem_cons_self))
        (of_decide_eq_true (isDirectoryAt_of_isWay hw)) nofun
    have hrest := ih hway (fun m hm => hnames m (List.mem_cons_of_mem _ hm)) (.name n :: moves) rfl
    rw [← hname, ← hrest, List.reverse_cons, List.map_append, List.append_assoc]
    rfl

theorem isDirectoryAt_around (fs : FileSystem) (names : List Name) : fs.isDirectoryAt (fs.around names) = true := by
  induction names with
  | nil => rfl
  | cons n names ih =>
    rw [around]
    split
    · assumption
    · exact ih

/-- The last move to something that is no directory is a name. -/
theorem Arrives.getLast?_eq_name (h : fs.Arrives d e links p moves) (he : e ≠ .directory) :
    (moves = [] ∧ fs.isDirectoryAt p = false) ∨ ∃ n, moves.getLast? = some (.name n) := by
  have hcons {c : Component} {moves : List Component} {n : Name} (h : moves.getLast? = some (.name n)) :
      (c :: moves).getLast? = some (.name n) := by
    rw [List.getLast?_cons, h]
    rfl
  induction h with
  | done hd => exact Or.inl ⟨rfl, by simp [isDirectoryAt, hd, he]⟩
  | root _ ih =>
    rcases ih with ⟨rfl, hp⟩ | ⟨n, hn⟩
    · cases hp
    · exact Or.inr ⟨n, hcons hn⟩
  | here hd _ ih =>
    rcases ih with ⟨rfl, hp⟩ | ⟨n, hn⟩
    · rw [hd] at hp
      cases hp
    · exact Or.inr ⟨n, hcons hn⟩
  | up _ _ ih =>
    rcases ih with ⟨rfl, hp⟩ | ⟨n, hn⟩
    · rw [isDirectoryAt_around] at hp
      cases hp
    · exact Or.inr ⟨n, hcons hn⟩
  | @name _ _ m _ _ _ _ _ _ _ ih =>
    rcases ih with ⟨rfl, -⟩ | ⟨n, hn⟩
    · exact Or.inr ⟨m, rfl⟩
    · exact Or.inr ⟨n, hcons hn⟩
  | @link _ _ m moves _ _ _ _ _ ih =>
    by_cases hnil : moves = []
    · subst hnil
      exact Or.inr ⟨m, rfl⟩
    · rcases ih with ⟨hno, -⟩ | ⟨n, hn⟩
      · exact absurd (List.append_eq_nil_iff.1 hno).2 hnil
      · rw [List.getLast?_append_of_ne_nil _ hnil] at hn
        exact Or.inr ⟨n, hcons hn⟩

theorem exists_find_of_readText {text : String} (h : fs.readText current path = .ok text) :
    ∃ d e, fs.find current path true = .ok (d, e) ∧ e ≠ .directory := by
  obtain ⟨bytes, hbytes, -⟩ := bind_eq_ok.1 h
  rw [read] at hbytes
  split at hbytes
  · rename_i d f hf
    exact ⟨d, .file f, hf, by simp⟩
  · rename_i d hf
    exact ⟨d, .special, hf, by simp⟩
  · cases hbytes
  · cases hbytes

/-- **A path leads to a directory exactly where it does when it is spelled out.** -/
theorem find_directory_absolute?_iff (hcur : fs.pathOf? current = some here)
    (hnames : ∀ n ∈ current.names, n.bytes.length ≤ maxName) (hq : path.absolute? here = some q)
    (hpath : pathFault? path = none) (hfault : pathFault? q = none) (anywhere : Place) :
    fs.find anywhere q true = .ok (d, .directory) ↔ fs.find current path true = .ok (d, .directory) := by
  have hway := isWay_of_pathOf? hcur
  obtain rfl := eq_toPath_of_pathOf? hcur
  have hroute : q.makingRoute = .root :: ((if path.isAbsolute then [] else current.names.reverse.map .name) ++
      path.parts.filter (· != .here)) := by
    rw [Path.makingRoute, Path.isAbsolute_of_absolute? (Or.inr rfl) hq, if_pos rfl, Path.parts_of_absolute? hq,
      Path.spelled_pieces]
    rfl
  have hroot : .root ∉ path.parts := root_notMem_parts path
  rw [find_eq_directory_iff, find_eq_directory_iff, hroute, follow_root_cons, Path.makingRoute]
  simp only [hpath, hfault, true_and]
  by_cases hp : path.isAbsolute = true
  · rw [if_pos hp, if_pos hp, List.nil_append, List.singleton_append, follow_root_cons, follow_eq_ok_iff,
      follow_eq_ok_iff, arrives_filter_iff hroot]
  · rw [if_neg hp, if_neg hp, List.nil_append, follow_from_root hway hnames, follow_eq_ok_iff, follow_eq_ok_iff,
      arrives_filter_iff hroot]

section SpelledOut

variable (hcur : fs.pathOf? current = some here) (hrel : path.isAbsolute = false)

include hcur hrel

theorem exists_parts_of_find (hf : fs.find current path true = .ok (d, e)) (he : e ≠ .directory) :
    path.endsInSlash = false ∧ ∃ front n, path.parts = front ++ [.name n] := by
  have harrives := (find_eq_ok_iff.1 hf).2
  rw [Path.route, hrel, if_neg Bool.false_ne_true, List.nil_append] at harrives
  rcases harrives.getLast?_eq_name he with ⟨-, hno⟩ | ⟨n, hn⟩
  · rw [isDirectoryAt_of_isWay (isWay_of_pathOf? hcur)] at hno
    cases hno
  · cases hs : path.endsInSlash with
    | true =>
      rw [hs, if_pos rfl, List.getLast?_concat] at hn
      cases hn
    | false =>
      rw [hs, if_neg Bool.false_ne_true, List.append_nil] at hn
      obtain ⟨front, hfront⟩ := List.getLast?_eq_some_iff.1 hn
      exact ⟨rfl, front, n, hfront⟩

theorem find_of_absolute? (hnames : ∀ n ∈ current.names, n.bytes.length ≤ maxName)
    (hq : path.absolute? here = some q) (hfault : pathFault? q = none) (he : e ≠ .directory)
    (hf : fs.find current path true = .ok (d, e)) : fs.find current q true = .ok (d, e) := by
  obtain ⟨hs, front, n, hfront⟩ := exists_parts_of_find hcur hrel hf he
  have hway := isWay_of_pathOf? hcur
  obtain rfl := eq_toPath_of_pathOf? hcur
  obtain ⟨hpath, harrives⟩ := find_eq_ok_iff.1 hf
  have hne : path.bytes ≠ [] := by
    intro hb
    simp [pathFault?, hb] at hpath
  rw [Path.absolute?_eq_through hne, hrel, if_neg Bool.false_ne_true, hs, Path.hasDoubleRoot_of_relative hrel] at hq
  generalize hparts : current.names.reverse.map .name ++ Path.spelled path.pieces = parts at hq
  have hroot : ∀ c ∈ parts, c ≠ .root := by
    intro c hc
    rw [← hparts] at hc
    exact (Path.ne_of_mem_through hc).2
  have hlast : parts ≠ [] := by
    rw [← hparts, Path.spelled_pieces, hfront]
    simp
  obtain rfl : Path.through false parts = q := Option.some.inj hq
  have hroute : (Path.through false parts).route = .root :: parts := by
    rw [Path.route_of_isAbsolute (Path.isAbsolute_through hroot false), Path.parts_through hroot,
      Path.endsInSlash_through hroot, List.isEmpty_eq_false_iff.2 hlast, if_neg Bool.false_ne_true, List.append_nil]
  rw [Path.route, hrel, if_neg Bool.false_ne_true, hs, if_neg Bool.false_ne_true, List.nil_append,
    List.append_nil] at harrives
  rw [find_eq_ok_iff, hroute]
  refine ⟨hfault, .root ?_⟩
  rw [← hparts, ← follow_eq_ok_iff, follow_from_root hway hnames, follow_eq_ok_iff]
  exact harrives.thinned (thinned_filter path.parts)

/-- **A file can be read by the path that its path is spelled out as.** -/
theorem readText_of_absolute? {text : String} (hnames : ∀ n ∈ current.names, n.bytes.length ≤ maxName)
    (hq : path.absolute? here = some q) (hfault : pathFault? q = none)
    (hread : fs.readText current path = .ok text) : fs.readText current q = .ok text := by
  obtain ⟨d, e, hf, he⟩ := exists_find_of_readText hread
  have hsame : fs.read current q = fs.read current path := by
    rw [read, read, hf, find_of_absolute? hcur hrel hnames hq hfault he hf]
  rw [readText, hsame]
  exact hread

end SpelledOut

end GrammarBatch.FileSystem
