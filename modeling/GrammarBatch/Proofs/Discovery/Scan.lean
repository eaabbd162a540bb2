import GrammarBatch.Proofs.Discovery.Filter
import GrammarBatch.Proofs.Files.Walk
import Mathlib

/-!
# What a scan finds

* `Filter.nodup_names_scan`, `Filter.mem_scan_iff`: a scan that succeeds gives each file that is reached and
  wanted once for each list of names that leads to it;
* `Filter.scan_congr`: its result does not depend on the order in which directories list their entries;
* **`Filter.scan_finds_exactly`**: a scan fails exactly where the walk meets a failure, and else finds exactly
  the wanted files;
* **`Filter.scan_keeps_away`**: whatever the patterns, reserved directories are not reached.
-/

namespace GrammarBatch.Filter

variable {f : Filter} {fs fs' : FileSystem} {current : Place} {root : Path} {found : List GrammarPath}

/-- The grammars whose names a walk has found, as far as they are wanted. -/
def wanted (f : Filter) (ways : List (List Name)) : List GrammarPath :=
  (ways.filterMap GrammarPath.ofNames?).filter f.wants

theorem mem_wanted_iff {ways : List (List Name)} {g : GrammarPath} :
    g ∈ f.wanted ways ↔ g.names ∈ ways ∧ f.wants g = true := by
  simp [wanted, List.mem_filter, List.mem_filterMap, GrammarPath.ofNames?_eq_some_iff]

theorem nodup_wanted {ways : List (List Name)} (h : ways.Nodup) : (f.wanted ways).Nodup := by
  refine List.Nodup.filter _ (List.Nodup.filterMap (fun a b g ha hb => ?_) h)
  rw [GrammarPath.ofNames?_eq_some_iff.1 ha, GrammarPath.ofNames?_eq_some_iff.1 hb]

/-- Grammars are listed in the order of the names that lead to them. -/
def precedes (g h : GrammarPath) : Bool := (compare g.names h.names).isLE

theorem precedes_trans (a b c : GrammarPath) (hab : precedes a b = true) (hbc : precedes b c = true) :
    precedes a c = true :=
  Std.TransOrd.isLE_trans hab hbc

theorem precedes_total (a b : GrammarPath) : (precedes a b || precedes b a) = true := by
  have := Std.OrientedOrd.eq_swap (a := a.names) (b := b.names)
  unfold precedes
  rw [this]
  cases compare b.names a.names <;> rfl

theorem precedes_antisymm (a b : GrammarPath) (hab : precedes a b = true) (hba : precedes b a = true) :
    a = b :=
  GrammarPath.names_injective
    (Std.LawfulEqOrd.eq_of_compare (Std.OrientedCmp.isLE_antisymm hab hba))

theorem scan_of_walk {ways : List (List Name)} (h : fs.walk current root = .ok ways) :
    f.scan fs current root = .ok ((f.wanted ways).mergeSort precedes) := by
  rw [scan, h]
  rfl

theorem walk_of_scan (h : f.scan fs current root = .ok found) :
    ∃ ways, fs.walk current root = .ok ways ∧ found = (f.wanted ways).mergeSort precedes := by
  cases hw : fs.walk current root with
  | error e =>
    rw [scan, hw] at h
    cases h
  | ok ways =>
    rw [scan_of_walk hw] at h
    cases h
    exact ⟨ways, rfl, rfl⟩

theorem mem_scan_iff (h : f.scan fs current root = .ok found) {g : GrammarPath} : g ∈ found ↔
    (∃ q c, fs.Reaches current root g.names q (.file c)) ∧ f.wants g = true := by
  obtain ⟨ways, hw, rfl⟩ := walk_of_scan h
  have hans := fs.answers_walk current root
  rw [hw] at hans
  rw [List.mem_mergeSort, mem_wanted_iff, hans.2.2]

theorem nodup_scan (h : f.scan fs current root = .ok found) : found.Nodup := by
  obtain ⟨ways, hw, rfl⟩ := walk_of_scan h
  have hans := fs.answers_walk current root
  rw [hw] at hans
  exact (List.mergeSort_perm _ _).nodup_iff.2 (nodup_wanted hans.2.1)

theorem pairwise_scan (h : f.scan fs current root = .ok found) :
    found.Pairwise fun a b => precedes a b = true := by
  obtain ⟨ways, -, rfl⟩ := walk_of_scan h
  exact List.pairwise_mergeSort precedes_trans precedes_total _

theorem exists_scan_of_not_meetsFailure (h : ¬ fs.MeetsFailure current root) :
    ∃ found, f.scan fs current root = .ok found := by
  have hans := fs.answers_walk current root
  cases hw : fs.walk current root with
  | error e =>
    rw [hw] at hans
    exact absurd hans h
  | ok ways => exact ⟨_, scan_of_walk hw⟩

theorem scan_of_meetsFailure (h : fs.MeetsFailure current root) :
    ∃ cause, f.scan fs current root = .error ⟨root, cause⟩ := by
  have hans := fs.answers_walk current root
  cases hw : fs.walk current root with
  | error e => exact ⟨e, by rw [scan, hw]⟩
  | ok ways =>
    rw [hw] at hans
    exact absurd h hans.1

/-- Two lists of grammars in order are one list if they hold the same grammars, each once. -/
theorem eq_of_mem_iff {a b : List GrammarPath} (ha : a.Nodup) (hb : b.Nodup)
    (hpa : a.Pairwise fun x y => precedes x y = true) (hpb : b.Pairwise fun x y => precedes x y = true)
    (h : ∀ g, g ∈ a ↔ g ∈ b) : a = b :=
  ((List.perm_ext_iff_of_nodup ha hb).2 h).eq_of_pairwise
    (fun x y _ _ hxy hyx => precedes_antisymm x y hxy hyx) hpa hpb

/-- The order in which directories list their entries does not matter. -/
theorem scan_congr (h : ∀ p, fs'.get? p = fs.get? p) :
    (f.scan fs' current root).toOption = (f.scan fs current root).toOption := by
  have hsymm : ∀ p, fs.get? p = fs'.get? p := fun p => (h p).symm
  by_cases hm : fs.MeetsFailure current root
  · obtain ⟨cause, hs⟩ := scan_of_meetsFailure (f := f) hm
    obtain ⟨cause', hs'⟩ := scan_of_meetsFailure (f := f) (FileSystem.meetsFailure_congr h hm)
    rw [hs, hs']
    rfl
  · obtain ⟨found, hs⟩ := exists_scan_of_not_meetsFailure (f := f) hm
    obtain ⟨found', hs'⟩ := exists_scan_of_not_meetsFailure (f := f)
      fun hm' => hm (FileSystem.meetsFailure_congr hsymm hm')
    have heq : found' = found := by
      refine eq_of_mem_iff (nodup_scan hs') (nodup_scan hs) (pairwise_scan hs') (pairwise_scan hs) fun g => ?_
      rw [mem_scan_iff hs', mem_scan_iff hs]
      refine and_congr ⟨?_, ?_⟩ Iff.rfl
      · rintro ⟨q, c, hr⟩
        exact ⟨q, c, FileSystem.reaches_congr hsymm hr⟩
      · rintro ⟨q, c, hr⟩
        exact ⟨q, c, FileSystem.reaches_congr h hr⟩
    rw [hs, hs', heq]

/-! ## The files themselves -/

/-- The paths of the files that a scan gives. -/
def filesOf (root : Path) (found : List GrammarPath) : List Path := found.map (·.inDirectory root)

theorem filesOf_eq (root : Path) (found : List GrammarPath) :
    filesOf root found = (found.map GrammarPath.names).map fun rel => root.join (.ofNames rel) := by
  rw [filesOf, List.map_map]
  refine List.map_congr_left fun g _ => ?_
  rw [GrammarPath.inDirectory, GrammarPath.toPath_eq]
  rfl

/-- **A scan gives exactly the files below its root that names lead to and that the filter wants, once for
each list of names; it fails exactly where the walk meets a failure, and in whatever order directories list
their entries.** -/
theorem scan_finds_exactly (includes excludes : PatternSet) (withDefaults : Bool) (fs : FileSystem)
    (current : Place) (root : Path) :
    (¬ fs.MeetsFailure current root →
      ∃ found, (Filter.of includes excludes withDefaults).scan fs current root = .ok found ∧
        ∃ rels : List (List Name), rels.Nodup ∧
          (∀ rel, rel ∈ rels ↔ (∃ q c, fs.Reaches current root rel q (.file c)) ∧
            (Filter.of includes excludes withDefaults).accepts (Path.ofNames rel).display = true) ∧
          filesOf root found = rels.map (fun rel => root.join (.ofNames rel)) ∧
          (filesOf root found).Nodup ∧ root ∉ filesOf root found ∧
          ∀ rel q, fs.Reaches current root rel q .directory →
            root.join (.ofNames rel) ∉ filesOf root found) ∧
    (fs.MeetsFailure current root →
      ∃ cause, (Filter.of includes excludes withDefaults).scan fs current root = .error ⟨root, cause⟩) ∧
    ∀ fs' : FileSystem, (∀ p, fs'.get? p = fs.get? p) →
      ((Filter.of includes excludes withDefaults).scan fs' current root).toOption =
        ((Filter.of includes excludes withDefaults).scan fs current root).toOption := by
  refine ⟨fun h => ?_, scan_of_meetsFailure, fun fs' h => scan_congr h⟩
  obtain ⟨found, hs⟩ := exists_scan_of_not_meetsFailure (f := .of includes excludes withDefaults) h
  have hrels : ∀ rel, rel ∈ found.map GrammarPath.names ↔
      (∃ q c, fs.Reaches current root rel q (.file c)) ∧
        (Filter.of includes excludes withDefaults).accepts (Path.ofNames rel).display = true := by
    intro rel
    rw [List.mem_map]
    constructor
    · rintro ⟨g, hg, rfl⟩
      obtain ⟨hr, hw⟩ := (mem_scan_iff hs).1 hg
      rw [wants, GrammarPath.toPath_eq] at hw
      exact ⟨hr, hw⟩
    · rintro ⟨⟨q, c, hr⟩, hw⟩
      obtain ⟨g, rfl⟩ := GrammarPath.exists_names hr.ne_nil
      rw [← GrammarPath.toPath_eq] at hw
      exact ⟨g, (mem_scan_iff hs).2 ⟨⟨q, c, hr⟩, hw⟩, rfl⟩
  have hnodup : (found.map GrammarPath.names).Nodup :=
    (nodup_scan hs).map fun _ _ => GrammarPath.names_injective
  refine ⟨found, hs, found.map GrammarPath.names, hnodup, hrels, filesOf_eq root found, ?_, ?_, ?_⟩
  · rw [filesOf_eq]
    exact hnodup.map fun _ _ => Path.join_ofNames_injective
  · rw [filesOf_eq]
    intro hm
    obtain ⟨rel, hrel, he⟩ := List.mem_map.1 hm
    obtain ⟨⟨q, c, hr⟩, -⟩ := (hrels rel).1 hrel
    exact Path.join_ofNames_ne_self root hr.ne_nil he
  · intro rel q hdir hm
    rw [filesOf_eq] at hm
    obtain ⟨rel', hrel', he⟩ := List.mem_map.1 hm
    obtain rfl := Path.join_ofNames_injective he
    obtain ⟨⟨q', c, hr⟩, -⟩ := (hrels rel').1 hrel'
    cases (hr.unique hdir).2

/-- A directory with a grammar, a directory that holds another one, a link to that directory, and a
directory of imports. -/
def linked : FileSystem where
  entries :=
    [(.ofNames [.ofString "s"], .directory),
      (.ofNames [.ofString "A.g", .ofString "s"], .file ⟨[], false, none⟩),
      (.ofNames [.ofString "d", .ofString "s"], .directory),
      (.ofNames [.ofString "l", .ofString "s"], .link (.ofString "d")),
      (.ofNames [importsName, .ofString "s"], .directory),
      (.ofNames [.ofString "B.g", .ofString "d", .ofString "s"], .file ⟨[], false, none⟩),
      (.ofNames [.ofString "C.g", importsName, .ofString "s"], .file ⟨[], false, none⟩)]
  nodup := by decide

/-- The same tree, every directory listed backwards. -/
def linkedBackwards : FileSystem where
  entries := linked.entries.reverse
  nodup := by decide

theorem get?_linkedBackwards (p : Place) : linkedBackwards.get? p = linked.get? p := by
  have h : linkedBackwards.entries.lookup p = linked.entries.lookup p := by
    refine Option.ext fun e => ?_
    rw [FileSystem.lookup_eq_some_iff_mem linkedBackwards.nodup,
      FileSystem.lookup_eq_some_iff_mem linked.nodup]
    exact List.mem_reverse
  rw [FileSystem.get?, h, ← FileSystem.get?]

theorem walkFrom_linked_d (way : List Name) (path : Path) (stack : List Walked)
    (h : path.bytes.length < FileSystem.pathBound) :
    linked.walkFrom .root way ⟨.ofNames [.ofString "d", .ofString "s"], path⟩ stack =
      .ok [way ++ [.ofString "B.g"]] := by
  rw [FileSystem.walkFrom_eq]
  exact (if_neg (Nat.not_le.2 h)).trans rfl

theorem walk_linked : linked.walk .root (.ofString "/s") =
    .ok [[.ofString "A.g"], [.ofString "d", .ofString "B.g"], [.ofString "l", .ofString "B.g"],
      [importsName, .ofString "C.g"]] := by
  have hs : linked.find .root (.ofString "/s") true = .ok (.ofNames [.ofString "s"], .directory) := by cbv
  have hfind : linked.find .root ((Path.ofString "/s").join ⟨(Name.ofString "l").bytes⟩) true =
      .ok (.ofNames [.ofString "d", .ofString "s"], .directory) := by cbv
  have hc : linked.children (.ofNames [.ofString "s"]) =
      [(.ofString "A.g", .file ⟨[], false, none⟩), (.ofString "d", .directory),
        (.ofString "l", .link (.ofString "d")), (importsName, .directory)] := by decide
  let top : Walked := ⟨.ofNames [.ofString "s"], .ofString "/s"⟩
  have hd : linked.visit .root [] top [] (.ofString "d", .directory) =
      .ok [[.ofString "d", .ofString "B.g"]] :=
    walkFrom_linked_d _ _ _ (by decide)
  have hl : linked.visit .root [] top [] (.ofString "l", .link (.ofString "d")) =
      .ok [[.ofString "l", .ofString "B.g"]] := by
    simp only [FileSystem.visit, top, hfind]
    exact walkFrom_linked_d _ _ _ (by decide)
  have hi : linked.visit .root [] top [] (importsName, .directory) =
      .ok [[importsName, .ofString "C.g"]] := by
    rw [FileSystem.visit, FileSystem.walkFrom_eq]
    exact (if_neg (by decide)).trans rfl
  rw [FileSystem.walk_of_directory hs, FileSystem.walkFrom_eq, if_neg (by decide), hc]
  simp only [List.mapM_cons, List.mapM_nil]
  rw [hd, hl, hi]
  rfl

theorem reaches_linked : ¬ linked.MeetsFailure .root (.ofString "/s") ∧
    (∃ q c, linked.Reaches .root (.ofString "/s") [.ofString "l", .ofString "B.g"] q (.file c)) ∧
    ∃ q c, linked.Reaches .root (.ofString "/s") [importsName, .ofString "C.g"] q (.file c) := by
  have hans := linked.answers_walk .root (.ofString "/s")
  rw [walk_linked] at hans
  exact ⟨hans.1, (hans.2.2 _).1 (by simp), (hans.2.2 _).1 (by simp)⟩

theorem accepts_linked :
    (of ∅ ∅ true).accepts (Path.ofNames [.ofString "l", .ofString "B.g"]).display = true := by
  have ht : (Path.ofNames [.ofString "l", .ofString "B.g"]).display = "l/B.g" := by decide
  have hinc : (Pattern.parse defaultInclude).accepts "l/B.g" = true := by cbv
  have hstar : (Pattern.parse "**/*~").accepts "l/B.g" = false := by cbv
  have hrest : ∀ u ∈ defaultExcludes.tail, (Pattern.parse u).accepts "l/B.g" = false := by
    decide +kernel
  have himports : (Pattern.parse importsExclude).accepts "l/B.g" = false := by decide +kernel
  rw [ht, accepts_of_iff, accepts_effectiveExcludes_iff]
  refine ⟨PatternSet.accepts_insertAll.2 (Or.inl ⟨_, List.mem_singleton.2 rfl, hinc⟩), ?_⟩
  rintro (⟨-, u, hu, h⟩ | h | h)
  · rcases List.mem_cons.1 hu with rfl | hu
    · rw [hstar] at h
      cases h
    · rw [hrest u hu] at h
      cases h
  · rw [himports] at h
    cases h
  · cases h

/-- Of that tree, the grammar that the link leads to is found below the link as well, in either order. -/
theorem scan_linked :
    (¬ linked.MeetsFailure .root (.ofString "/s") ∧
      ∃ found, (of ∅ ∅ true).scan linked .root (.ofString "/s") = .ok found ∧
        (Path.ofString "/s").join (.ofNames [.ofString "l", .ofString "B.g"]) ∈
          filesOf (.ofString "/s") found) ∧
    (linked.MeetsFailure .root (.ofString "/x") ∧
      ∃ cause, (of ∅ ∅ true).scan linked .root (.ofString "/x") = .error ⟨.ofString "/x", cause⟩) ∧
    ((of ∅ ∅ true).scan linkedBackwards .root (.ofString "/s")).toOption =
      ((of ∅ ∅ true).scan linked .root (.ofString "/s")).toOption := by
  obtain ⟨hno, hreach, -⟩ := reaches_linked
  have hx : linked.MeetsFailure .root (.ofString "/x") := Or.inl ⟨.notFound, by cbv⟩
  have hexact := scan_finds_exactly ∅ ∅ true linked .root (.ofString "/s")
  obtain ⟨found, hs, rels, -, hrels, hfiles, -⟩ := hexact.1 hno
  refine ⟨⟨hno, found, hs, ?_⟩, ⟨hx, ?_⟩, hexact.2.2 _ get?_linkedBackwards⟩
  · rw [hfiles]
    exact List.mem_map_of_mem ((hrels _).2 ⟨hreach, accepts_linked⟩)
  · exact (scan_finds_exactly ∅ ∅ true linked .root (.ofString "/x")).2.1 hx

/-! ## Reserved directories -/

/-- The first part of a text between slashes. -/
def firstPart? (t : String) : Option (List Char) :=
  ((t.toList.splitOn '/').filter (!·.isEmpty)).head?

/-- **No pattern reaches into the imports directory, and with the default excludes none reaches into a
directory of a version control system; without any exclude nothing but the imports directory is kept away
from.** -/
theorem scan_keeps_away (includes excludes : PatternSet) (withDefaults : Bool) (fs : FileSystem)
    (current : Place) (root : Path) :
    (∀ found, (of includes excludes withDefaults).scan fs current root = .ok found → ∀ g ∈ found,
      g.names.head? ≠ some importsName ∧
        (withDefaults = true → (∀ n ∈ g.names.head?, n.bytes.head? ≠ some backslash) →
          ∀ n ∈ g.names, n ∉ metadataNames)) ∧
    (∀ found, (of includes ∅ false).scan fs current root = .ok found → ∀ g : GrammarPath,
      (∀ n ∈ g.names, backslash ∉ n.bytes) → (∃ q c, fs.Reaches current root g.names q (.file c)) →
      (effectiveIncludes includes).accepts g.toPath.display = true → g ∉ found →
      g.names.head? = some importsName) ∧
    ∀ t : String, '\\' ∉ t.toList → (effectiveIncludes includes).accepts t = true →
      (of includes ∅ false).accepts t = false → firstPart? t = some "imports".toList := by
  refine ⟨fun found hs g hg => ?_, fun found hs g hplain hr hinc hg => ?_, fun t hplain hinc h => ?_⟩
  · have hw : (of includes excludes withDefaults).accepts (Path.ofNames g.names).display = true := by
      rw [← GrammarPath.toPath_eq]
      exact ((mem_scan_iff hs).1 hg).2
    constructor
    · intro himports
      rw [not_accepts_of_head?_imports himports] at hw
      cases hw
    · rintro rfl hfirst n hn hm
      rw [not_accepts_of_mem_metadata hfirst hn hm] at hw
      cases hw
  · have hrej : (of includes ∅ false).accepts g.toPath.display = false := by
      rw [Bool.eq_false_iff]
      exact fun hw => hg ((mem_scan_iff hs).2 ⟨hr, hw⟩)
    have hhead := head?_imports_of_not_accepts hinc hrej
    rw [GrammarPath.toPath_eq] at hhead
    exact head?_imports_of_segmentsOf hplain hhead
  · rw [firstPart?, ← segmentsOf_of_backslash_notMem hplain]
    exact head?_imports_of_not_accepts hinc h

/-- In the tree above, the grammar below the link is found and the one among the imports is not. -/
theorem scan_linked_keeps_away :
    (∃ found, (of ∅ ∅ true).scan linked .root (.ofString "/s") = .ok found ∧
      ⟨[.ofString "l"], .ofString "B.g"⟩ ∈ found ∧ Name.ofString "l" ∉ metadataNames) ∧
    (∃ found, (of ∅ ∅ false).scan linked .root (.ofString "/s") = .ok found ∧
      ⟨[importsName], .ofString "C.g"⟩ ∉ found) ∧
    (of ∅ ∅ false).accepts "imports/C.g" = false ∧
    firstPart? "imports/C.g" = some "imports".toList := by
  obtain ⟨hno, hreach, himports⟩ := reaches_linked
  have hinc : (effectiveIncludes ∅).accepts "imports/C.g" = true := by
    have h : (Pattern.parse defaultInclude).accepts "imports/C.g" = true := by cbv
    exact PatternSet.accepts_insertAll.2 (Or.inl ⟨_, List.mem_singleton.2 rfl, h⟩)
  have hrej : (of ∅ ∅ false).accepts "imports/C.g" = false := by
    have ht : (Path.ofNames [importsName, .ofString "C.g"]).display = "imports/C.g" := by decide
    rw [← ht]
    exact not_accepts_of_head?_imports rfl
  obtain ⟨found, hs⟩ := exists_scan_of_not_meetsFailure (f := of ∅ ∅ true) hno
  obtain ⟨found', hs'⟩ := exists_scan_of_not_meetsFailure (f := of ∅ ∅ false) hno
  have hg : ⟨[.ofString "l"], .ofString "B.g"⟩ ∈ found :=
    (mem_scan_iff hs).2 ⟨hreach, accepts_linked⟩
  refine ⟨⟨found, hs, hg, ?_⟩, ⟨found', hs', ?_⟩, hrej, ?_⟩
  · exact ((scan_keeps_away ∅ ∅ true linked .root (.ofString "/s")).1 found hs _ hg).2 rfl (by decide) _
      List.mem_cons_self
  · intro hg'
    exact ((scan_keeps_away ∅ ∅ false linked .root (.ofString "/s")).1 found' hs' _ hg').1 rfl
  · exact (scan_keeps_away ∅ ∅ false linked .root (.ofString "/s")).2.2 _ (by decide) hinc hrej

end GrammarBatch.Filter
