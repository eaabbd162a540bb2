import GrammarBatch.Proofs.Discovery.Scan
import GrammarBatch.Proofs.Files.Links

/-!
# Links that are excluded

* `FileSystem.GainsLink`: a tree of directories and files, and the same tree with one symbolic link more;
* `Filter.scan_of_walk_eq`: a scan is told by what the walk finds that is wanted;
* **`Filter.scan_gainsLink`**: a link that is excluded, with everything below it, does not change what a scan
  gives, unless the walk fails at the link;
* `Filter.scan_fails_neighbours`: it can fail there, although the link is excluded.
-/

namespace GrammarBatch

/-- Below the directory that `root` names there are no symbolic links in `fs`, and one in `fs'`: the entry `n` of
the directory that the names of `front` lead down to. Nothing else is different. -/
structure FileSystem.GainsLink (fs fs' : FileSystem) (current : Place) (root : Path) (d : Place)
    (front : List Name) (n : Name) (target : Path) : Prop where
  found : fs.find current root true = .ok (d, .directory)
  unlinked : fs.Unlinked d
  descends : fs.Descends ⟨d, root⟩ front
  adds : fs.AddsLink fs' (((Walked.mk d root).descend front).place.child n) target

/-- The walk of `root`, which leads to `d`, fails at the entry `n` of the directory that the names of `front` lead
down to: the entry leads nowhere, or to a directory on the way to it, or the walk fails below the directory that
it leads to. -/
def FileSystem.FailsDown (fs : FileSystem) (current : Place) (root : Path) (d : Place) (front : List Name)
    (n : Name) : Prop :=
  let around := (Walked.mk d root).descend front
  fs.FailsAt current around.place (((Walked.mk d root).above front).map (·.place)) (around.path.join ⟨n.bytes⟩) n

namespace Filter

variable {f : Filter} {fs fs' : FileSystem} {current d : Place} {root target : Path} {front : List Name} {n : Name}

theorem wanted_append (f : Filter) (a b : List (List Name)) : f.wanted (a ++ b) = f.wanted a ++ f.wanted b := by
  rw [wanted, List.filterMap_append, List.filter_append]
  rfl

theorem scan_of_walk_eq (h : (fs'.walk current root).map f.wanted = (fs.walk current root).map f.wanted) :
    f.scan fs' current root = f.scan fs current root := by
  cases hw' : fs'.walk current root with
  | error e =>
    rw [hw'] at h
    have hw := map_eq_error.1 h.symm
    rw [scan, scan, hw', hw]
  | ok ways' =>
    rw [hw'] at h
    obtain ⟨ways, hw, hwanted⟩ := map_eq_ok.1 h.symm
    rw [scan_of_walk hw', scan_of_walk hw, hwanted]

theorem wanted_eq_nil {ways : List (List Name)}
    (h : ∀ way ∈ ways, f.excludes.accepts (Path.ofNames way).display = true) : f.wanted ways = [] := by
  rw [List.eq_nil_iff_forall_not_mem]
  intro g hg
  obtain ⟨hway, hwants⟩ := mem_wanted_iff.1 hg
  rw [wants, accepts, GrammarPath.toPath_eq, h _ hway] at hwants
  simp at hwants

/-- A walk that does not fail at an excluded link finds nothing through it that counts. -/
theorem wanted_visit_gainsLink (h : fs.GainsLink fs' current root d front n target)
    (hexcluded : ∀ more q c, fs'.Reaches current root (front ++ n :: more) q (.file c) →
      f.excludes.accepts (Path.ofNames (front ++ n :: more)).display = true)
    (hfails : ¬fs'.FailsDown current root d front n) :
    (FileSystem.visit fs' current front ((Walked.mk d root).descend front) ((Walked.mk d root).above front)
      (n, .link target)).map f.wanted = .ok [] := by
  have hans : FileSystem.Answers (fs'.FailsDown current root d front n)
      (FileSystem.FindsAt fs' current front ((Walked.mk d root).descend front) n)
      (FileSystem.visit fs' current front ((Walked.mk d root).descend front) ((Walked.mk d root).above front)
        (n, .link target)) :=
    FileSystem.answers_visit h.adds.get?_self fun p _ _ => FileSystem.answers_walkFrom _ _ _
  generalize FileSystem.visit fs' current front ((Walked.mk d root).descend front)
    ((Walked.mk d root).above front) (n, .link target) = r at hans
  cases r with
  | error e => exact absurd hans hfails
  | ok ways =>
    refine congrArg Except.ok (wanted_eq_nil ?_)
    intro way hway
    obtain ⟨more, q, c, rfl, hleads⟩ := (hans.2.2 way).1 hway
    have hdescends := h.descends.extends_of h.adds.extends_of
    exact hexcluded more q c
      ⟨d, h.adds.find_eq_ok h.found, FileSystem.leads_of_descends hdescends hleads⟩

/-- **A link that is excluded, with every file that is found through it, does not change what a scan gives, or how
it fails, unless the walk fails at the link. It does where the link leads back to a directory on the way to it.** -/
theorem scan_gainsLink (f : Filter) (h : fs.GainsLink fs' current root d front n target)
    (hexcluded : ∀ more q c, fs'.Reaches current root (front ++ n :: more) q (.file c) →
      f.excludes.accepts (Path.ofNames (front ++ n :: more)).display = true) :
    (¬fs'.FailsDown current root d front n → f.scan fs' current root = f.scan fs current root ∧
      ∀ fs₂ : FileSystem, (∀ p, fs₂.get? p = fs'.get? p) →
        (f.scan fs₂ current root).toOption = (f.scan fs current root).toOption) ∧
    ∀ w ∈ (Walked.mk d root).descend front :: (Walked.mk d root).above front,
      fs'.find current (((Walked.mk d root).descend front).path.join ⟨n.bytes⟩) true = .ok (w.place, .directory) →
      ∃ cause, f.scan fs' current root = .error ⟨root, cause⟩ := by
  have hfound := h.adds.find_eq_ok h.found
  constructor
  · intro hfails
    have hlink := wanted_visit_gainsLink h hexcluded hfails
    rw [← List.append_nil ((Walked.mk d root).above front)] at hlink
    have hsame : f.scan fs' current root = f.scan fs current root := by
      refine scan_of_walk_eq ?_
      rw [FileSystem.walk_of_directory hfound, FileSystem.walk_of_directory h.found]
      exact FileSystem.map_walkFrom_addsLink (wanted_append f) h.adds h.unlinked hlink
    refine ⟨hsame, ?_⟩
    intro fs₂ hfs₂
    rw [scan_congr hfs₂, hsame]
  · intro w hw hloop
    have hfails : fs'.FailsDown current root d front n :=
      Or.inr (Or.inl ⟨target, w.place, h.adds.get?_self, hloop, List.mem_map_of_mem hw⟩)
    rw [FileSystem.FailsDown, ← List.append_nil ((Walked.mk d root).above front)] at hfails
    have hwalk := FileSystem.walkFails_of_descends (h.descends.extends_of h.adds.extends_of) hfails
    exact scan_of_meetsFailure (Or.inr ⟨d, hfound, hwalk⟩)

/-! ## A link in place of the imports -/

/-- A directory with a grammar, and a directory with another one. -/
def neighbours : FileSystem where
  entries :=
    [(.ofNames [.ofString "here"], .directory),
      (.ofNames [.ofString "H.g", .ofString "here"], .file ⟨[], false, none⟩),
      (.ofNames [.ofString "there"], .directory),
      (.ofNames [.ofString "T.g", .ofString "there"], .file ⟨[], false, none⟩)]
  nodup := by decide

/-- The same with a link in place of a directory of imports. -/
def neighboursLinked (target : Path) : FileSystem where
  entries :=
    [(.ofNames [.ofString "here"], .directory),
      (.ofNames [importsName, .ofString "here"], .link target),
      (.ofNames [.ofString "H.g", .ofString "here"], .file ⟨[], false, none⟩),
      (.ofNames [.ofString "there"], .directory),
      (.ofNames [.ofString "T.g", .ofString "there"], .file ⟨[], false, none⟩)]
  nodup := by
    simp only [List.map_cons, List.map_nil]
    decide

theorem gainsLink_neighbours (target : Path) : neighbours.GainsLink (neighboursLinked target) .root
    (.ofString "/here") (.ofNames [.ofString "here"]) [] importsName target where
  found := by cbv
  unlinked := by
    intro q link _ hget
    unfold FileSystem.get? at hget
    split at hget
    · cases hget
    · rw [FileSystem.lookup_eq_some_iff_mem neighbours.nodup] at hget
      simp [neighbours] at hget
  descends := trivial
  adds := ⟨by decide, [_], _, rfl, rfl⟩

theorem excludes_imports (more : List Name) :
    (of ∅ ∅ true).excludes.accepts (Path.ofNames (importsName :: more)).display = true :=
  excludes_of_head?_imports rfl

theorem exists_scan_neighbours :
    ∃ found, (of ∅ ∅ true).scan neighbours .root (.ofString "/here") = .ok found := by
  have hfind : neighbours.find .root (.ofString "/here") true =
      .ok (.ofNames [.ofString "here"], .directory) := by cbv
  have hwalk : neighbours.walk .root (.ofString "/here") = .ok [[.ofString "H.g"]] := by
    rw [FileSystem.walk_of_directory hfind, FileSystem.walkFrom_eq, if_neg (by decide)]
    rfl
  exact ⟨_, scan_of_walk hwalk⟩

theorem not_failsDown_neighbours : ¬(neighboursLinked (.ofString "/there")).FailsDown .root (.ofString "/here")
    (.ofNames [.ofString "here"]) [] importsName := by
  have htarget : (neighboursLinked (.ofString "/there")).target? .root (.ofNames [.ofString "here"])
      ((Path.ofString "/here").join ⟨importsName.bytes⟩) importsName =
        some (.ok (.ofNames [.ofString "there"], .directory)) := by cbv
  have hfind : (neighboursLinked (.ofString "/there")).find .root
      ((Path.ofString "/here").join ⟨importsName.bytes⟩) true =
        .ok (.ofNames [.ofString "there"], .directory) := by cbv
  have hwalk : (neighboursLinked (.ofString "/there")).walkFrom .root [importsName]
      ⟨.ofNames [.ofString "there"], (Path.ofString "/here").join ⟨importsName.bytes⟩⟩
      [⟨.ofNames [.ofString "here"], .ofString "/here"⟩] = .ok [[importsName, .ofString "T.g"]] := by
    rw [FileSystem.walkFrom_eq, if_neg (by decide)]
    rfl
  rintro (⟨cause, hcause⟩ | ⟨link, p, -, hp, hloop⟩ | ⟨p, hp, hfails⟩)
  · cases htarget.symm.trans hcause
  · cases hfind.symm.trans hp
    exact absurd hloop (by decide)
  · cases htarget.symm.trans hp
    exact FileSystem.not_walkFails_of_walkFrom hwalk hfails

/-- A link to the other directory changes nothing, although a grammar is reached through it. A link that leads back
is a failure. -/
theorem scan_gainsLink_neighbours :
    (∃ q c, (neighboursLinked (.ofString "/there")).Reaches .root (.ofString "/here")
      ([] ++ importsName :: [.ofString "T.g"]) q (.file c)) ∧
    (of ∅ ∅ true).scan (neighboursLinked (.ofString "/there")) .root (.ofString "/here") =
      (of ∅ ∅ true).scan neighbours .root (.ofString "/here") ∧
    (∃ found, (of ∅ ∅ true).scan neighbours .root (.ofString "/here") = .ok found) ∧
    ∃ cause, (of ∅ ∅ true).scan (neighboursLinked (.ofString ".")) .root (.ofString "/here") =
      .error ⟨.ofString "/here", cause⟩ := by
  have hreach : ∃ q c, (neighboursLinked (.ofString "/there")).Reaches .root (.ofString "/here")
      ([] ++ importsName :: [.ofString "T.g"]) q (.file c) := by
    have hfound : (neighboursLinked (.ofString "/there")).find .root (.ofString "/here") true =
        .ok (.ofNames [.ofString "here"], .directory) := by cbv
    have hdown : (neighboursLinked (.ofString "/there")).target? .root (.ofNames [.ofString "here"])
        ((Path.ofString "/here").join ⟨importsName.bytes⟩) importsName =
          some (.ok (.ofNames [.ofString "there"], .directory)) := by cbv
    exact ⟨.ofNames [.ofString "T.g", .ofString "there"], ⟨[], false, none⟩, _, hfound,
      .down hdown (.last (by cbv))⟩
  obtain ⟨hsame, -⟩ := scan_gainsLink (of ∅ ∅ true) (gainsLink_neighbours (.ofString "/there"))
    fun more _ _ _ => excludes_imports more
  obtain ⟨-, hloop⟩ := scan_gainsLink (of ∅ ∅ true) (gainsLink_neighbours (.ofString "."))
    fun more _ _ _ => excludes_imports more
  exact ⟨hreach, (hsame not_failsDown_neighbours).1, exists_scan_neighbours,
    hloop _ List.mem_cons_self (by cbv)⟩

/-- A link that leads back, and one that leads nowhere, fail the scan although they are excluded, with all that
could lie below them. -/
theorem scan_fails_neighbours :
    (∀ target, neighbours.GainsLink (neighboursLinked target) .root (.ofString "/here")
      (.ofNames [.ofString "here"]) [] importsName target) ∧
    (∀ more, (of ∅ ∅ true).excludes.accepts (Path.ofNames (importsName :: more)).display = true) ∧
    (∃ found, (of ∅ ∅ true).scan neighbours .root (.ofString "/here") = .ok found) ∧
    ∀ target ∈ [Path.ofString ".", .ofString "nowhere"], ∃ cause,
      (of ∅ ∅ true).scan (neighboursLinked target) .root (.ofString "/here") =
        .error ⟨.ofString "/here", cause⟩ := by
  refine ⟨gainsLink_neighbours, excludes_imports, exists_scan_neighbours, ?_⟩
  intro target htarget
  refine scan_of_meetsFailure (Or.inr ⟨.ofNames [.ofString "here"], ?_, ?_⟩)
  · exact (gainsLink_neighbours target).adds.find_eq_ok (gainsLink_neighbours target).found
  · have hget := (gainsLink_neighbours target).adds.get?_self
    rcases List.mem_cons.1 htarget with rfl | htarget
    · exact .loop importsName _ _ hget (by cbv) List.mem_cons_self
    · obtain rfl := List.mem_singleton.1 htarget
      exact .broken importsName .notFound (by cbv)

end Filter

end GrammarBatch
