import GrammarBatch.Pass.Basic
import GrammarBatch.Proofs.Discovery.Scan
import GrammarBatch.Proofs.Except
import GrammarBatch.Proofs.Path.Parts
import GrammarBatch.Proofs.Pass.Stages
import Mathlib.Data.List.Sort

/-!
# The files that a scan finds

A scan can be told as a loop over the paths that a walk comes to: each path is judged by what is left of it
without the root, and is put in its place among the paths found so far.

* `Path.insertInto`: a path put into a list of paths in order, unless it is there;
* `Filter.filesIn`: the loop;
* **`Filter.filesIn_eq`**: it finds the files of the grammars that a scan lists, in the same order;
* **`Filter.filesIn_relativized`**: each of them has its grammar path back, and a batch holds one grammar for
  each of them.
-/

namespace GrammarBatch

namespace Path

/-- The paths with `p` put in its place, unless a path with the same parts is there. -/
def insertInto (p : Path) : List Path → List Path
  | [] => [p]
  | q :: l =>
    match p.compare q with
    | .lt => p :: q :: l
    | .eq => q :: l
    | .gt => q :: insertInto p l

/-- The path of the entry that the names lead to, which grows with each of them. -/
def entry (root : Path) (way : List Name) : Path := way.foldl (fun p n => p.join ⟨n.bytes⟩) root

instance : Std.TransCmp Path.compare := inferInstanceAs (Std.TransCmp (compareOn components))

instance : Std.Asymm fun p q : Path => p.compare q = .lt where
  asymm p q h h' := by
    rw [← Std.OrientedCmp.gt_iff_lt, h] at h'
    cases h'

variable {p q : Path} {l : List Path}

theorem mem_of_mem_insertInto (h : q ∈ insertInto p l) : q = p ∨ q ∈ l := by
  induction l with
  | nil => exact Or.inl (List.mem_singleton.1 h)
  | cons r l ih =>
    cases hc : p.compare r with
    | lt => simpa only [insertInto, hc, List.mem_cons] using h
    | eq => exact Or.inr (by simpa only [insertInto, hc] using h)
    | gt =>
      simp only [insertInto, hc, List.mem_cons] at h
      rcases h with rfl | h
      · exact Or.inr List.mem_cons_self
      · exact (ih h).imp_right (List.mem_cons_of_mem r)

theorem mem_insertInto (h : ∀ q ∈ l, p.compare q ≠ .eq) : q ∈ insertInto p l ↔ q = p ∨ q ∈ l := by
  induction l with
  | nil => simp [insertInto]
  | cons r l ih =>
    have ih := ih fun q hq => h q (List.mem_cons_of_mem _ hq)
    cases hc : p.compare r with
    | lt => simp [insertInto, hc]
    | eq => exact absurd hc (h r List.mem_cons_self)
    | gt =>
      rw [insertInto, hc, List.mem_cons, List.mem_cons, ih]
      exact or_left_comm

theorem pairwise_insertInto (p : Path) (hl : l.Pairwise fun a b => a.compare b = .lt) :
    (insertInto p l).Pairwise fun a b => a.compare b = .lt := by
  induction l with
  | nil => simp [insertInto]
  | cons r l ih =>
    have ⟨hr, hrest⟩ := List.pairwise_cons.1 hl
    cases hc : p.compare r with
    | lt =>
      simp only [insertInto, hc]
      refine List.pairwise_cons.2 ⟨fun q hq => ?_, hl⟩
      rcases List.mem_cons.1 hq with rfl | hq
      · exact hc
      · exact Std.TransCmp.lt_trans hc (hr q hq)
    | eq => simpa only [insertInto, hc] using hl
    | gt =>
      simp only [insertInto, hc]
      refine List.pairwise_cons.2 ⟨fun q hq => ?_, ih hrest⟩
      rcases mem_of_mem_insertInto hq with rfl | hq
      · exact Std.OrientedCmp.gt_iff_lt.1 hc
      · exact hr q hq

theorem entry_eq (root : Path) {way : List Name} (h : way ≠ []) :
    root.entry way = root.join (ofNames way) := by
  induction way using List.reverseRecOn with
  | nil => exact absurd rfl h
  | append_singleton front n ih =>
    rw [entry, List.foldl_append, List.foldl_cons, List.foldl_nil, ← entry]
    by_cases hf : front = []
    · subst hf
      rw [List.nil_append, entry, List.foldl_nil, ← bytes_ofNames_singleton]
    · have hne : (ofNames front).bytes ≠ [] := fun hn => hf (bytes_ofNames_eq_nil_iff.1 hn)
      have hlast : (ofNames front).join ⟨n.bytes⟩ = ofNames (front ++ [n]) :=
        GrammarPath.toPath_eq ⟨front, n⟩
      rw [ih hf, join_join root hne (isAbsolute_ofNames front) (isAbsolute_name n), hlast]

end Path

namespace Filter

variable {f : Filter} {fs : FileSystem} {current : Place} {root p : Path} {found : List Path}
  {ways : List (List Name)}

/-- The paths found so far with one path more, if that is wanted. -/
def collect (f : Filter) (root : Path) (found : List Path) (p : Path) : List Path :=
  match root.rest? p with
  | none => found
  | some relative => if f.accepts relative.display then p.insertInto found else found

/-- The paths of the files that are wanted below a directory. -/
def filesIn (f : Filter) (fs : FileSystem) (current : Place) (root : Path) : Except ScanError (List Path) :=
  match fs.walk current root with
  | .error e => .error ⟨root, e⟩
  | .ok ways => .ok ((ways.map root.entry).foldl (f.collect root) [])

theorem pairwise_foldl_collect (paths : List Path) (h : found.Pairwise fun p q => p.compare q = .lt) :
    (paths.foldl (f.collect root) found).Pairwise fun p q => p.compare q = .lt := by
  induction paths generalizing found with
  | nil => exact h
  | cons p paths ih =>
    rw [List.foldl_cons]
    apply ih
    unfold collect
    split
    · exact h
    · split
      · exact Path.pairwise_insertInto p h
      · exact h

theorem collect_entry {way : List Name} (h : way ≠ []) : f.collect root found (root.entry way) =
    if f.accepts (Path.ofNames way).display then (root.join (.ofNames way)).insertInto found else found := by
  rw [collect, Path.entry_eq root h, Path.rest?_join root h]

theorem mem_foldl_collect (hn : ways.Nodup) (hne : ∀ way ∈ ways, way ≠ [])
    (hf : ∀ q ∈ found, ∃ way, q = root.join (.ofNames way) ∧ way ∉ ways) :
    p ∈ (ways.map root.entry).foldl (f.collect root) found ↔
      p ∈ found ∨ ∃ way ∈ ways, p = root.join (.ofNames way) ∧
        f.accepts (Path.ofNames way).display = true := by
  induction ways generalizing found with
  | nil => simp
  | cons way ways ih =>
    obtain ⟨hnew, hn⟩ := List.nodup_cons.1 hn
    have hne' : ∀ way ∈ ways, way ≠ [] := fun w hw => hne w (List.mem_cons_of_mem _ hw)
    have hother : ∀ q ∈ found, (root.join (.ofNames way)).compare q ≠ .eq := by
      intro q hq heq
      obtain ⟨w, rfl, hw⟩ := hf q hq
      rw [Path.compare_join_ofNames] at heq
      obtain rfl := Std.LawfulEqOrd.eq_of_compare heq
      exact hw List.mem_cons_self
    rw [List.map_cons, List.foldl_cons, collect_entry (hne way List.mem_cons_self)]
    by_cases ha : f.accepts (Path.ofNames way).display = true
    · rw [if_pos ha, ih hn hne', Path.mem_insertInto hother]
      · simp [ha, or_assoc, or_left_comm]
      · intro q hq
        rcases Path.mem_of_mem_insertInto hq with rfl | hq
        · exact ⟨way, rfl, hnew⟩
        · obtain ⟨w, rfl, hw⟩ := hf q hq
          exact ⟨w, rfl, fun h => hw (List.mem_cons_of_mem _ h)⟩
    · rw [if_neg ha, ih hn hne']
      · simp [ha]
      · intro q hq
        obtain ⟨w, rfl, hw⟩ := hf q hq
        exact ⟨w, rfl, fun h => hw (List.mem_cons_of_mem _ h)⟩

theorem pairwise_filesOf {grammars : List GrammarPath} (h : f.scan fs current root = .ok grammars) :
    (filesOf root grammars).Pairwise fun p q => p.compare q = .lt := by
  rw [filesOf, List.pairwise_map]
  refine ((pairwise_scan h).and (nodup_scan h)).imp fun {a b} hab => ?_
  obtain ⟨hle, hne⟩ := hab
  rw [GrammarPath.inDirectory, GrammarPath.inDirectory, GrammarPath.toPath_eq, GrammarPath.toPath_eq,
    Path.compare_join_ofNames]
  cases hc : compare a.names b.names with
  | lt => rfl
  | eq => exact absurd (GrammarPath.names_injective (Std.LawfulEqOrd.eq_of_compare hc)) hne
  | gt =>
    rw [precedes, hc] at hle
    cases hle

/-- **The loop finds the files of the grammars that a scan lists, in the same order, and fails as it does.** -/
theorem filesIn_eq (f : Filter) (fs : FileSystem) (current : Place) (root : Path) :
    f.filesIn fs current root = (f.scan fs current root).map (filesOf root) := by
  cases hw : fs.walk current root with
  | error e =>
    rw [filesIn, scan, hw]
    rfl
  | ok ways =>
    have hans := fs.answers_walk current root
    rw [hw] at hans
    obtain ⟨-, hn, hways⟩ := hans
    have hne : ∀ way ∈ ways, way ≠ [] := by
      intro way h
      obtain ⟨q, c, hr⟩ := (hways way).1 h
      exact hr.ne_nil
    have hs := scan_of_walk (f := f) hw
    rw [filesIn, hw, hs]
    refine congrArg Except.ok (List.Pairwise.eq_of_mem_iff ?_ (pairwise_filesOf hs) fun p => ?_)
    · exact pairwise_foldl_collect _ .nil
    · rw [mem_foldl_collect hn hne (by simp), filesOf, List.mem_map]
      constructor
      · rintro (h | ⟨way, h, rfl, ha⟩)
        · cases h
        · obtain ⟨g, rfl⟩ := GrammarPath.exists_names (hne way h)
          rw [← GrammarPath.toPath_eq] at ha
          exact ⟨g, List.mem_mergeSort.2 (mem_wanted_iff.2 ⟨h, ha⟩),
            by rw [GrammarPath.inDirectory, GrammarPath.toPath_eq]⟩
      · rintro ⟨g, hg, rfl⟩
        obtain ⟨h, ha⟩ := mem_wanted_iff.1 (List.mem_mergeSort.1 hg)
        rw [wants, GrammarPath.toPath_eq] at ha
        exact Or.inr ⟨g.names, h, by rw [GrammarPath.inDirectory, GrammarPath.toPath_eq], ha⟩

theorem mapM_ofFile (root : Path) (grammars : List GrammarPath) :
    (filesOf root grammars).mapM (GrammarPath.ofFile root) = .ok grammars := by
  induction grammars with
  | nil => rfl
  | cons g grammars ih =>
    rw [filesOf] at ih
    rw [filesOf, List.map_cons, List.mapM_cons, GrammarPath.ofFile_inDirectory, ih]
    rfl

/-- **However the directory is spelled, each file that is found there has a grammar path: it shows the text
that was judged, it leads back to the file, and no other file has it. So a batch holds one grammar for each
file, in the order of the files.** -/
theorem filesIn_relativized {files : List Path} (h : f.filesIn fs current root = .ok files) :
    (∀ p ∈ files, ∃ g relative, GrammarPath.ofFile root p = .ok g ∧ root.rest? p = some relative ∧
      f.accepts relative.display = true ∧ g.display = relative.display ∧ g.inDirectory root = p) ∧
    (∀ p ∈ files, ∀ q ∈ files, GrammarPath.ofFile root p = GrammarPath.ofFile root q → p = q) ∧
    (files.Pairwise fun p q => p.compare q = .lt) ∧
    ∀ (τ : Type) (env : Environment) (c : BuildConfig) (course : Course τ), env.current = current →
      course.files = fs → c.sourceDir = root → ofConfig c = f →
      ∃ batch, ((Pass.collectBatch env c).run course).1 = .ok batch ∧ batch.inputDir = root ∧
        batch.make = true ∧ files.mapM (GrammarPath.ofFile root) = .ok batch.grammars ∧
        batch.grammars.Nodup ∧ batch.grammars.map (·.inDirectory root) = files := by
  rw [filesIn_eq] at h
  obtain ⟨grammars, hs, rfl⟩ := map_eq_ok.1 h
  have hback : ∀ p ∈ filesOf root grammars, ∃ g ∈ grammars, g.inDirectory root = p ∧
      GrammarPath.ofFile root p = .ok g := by
    intro p hp
    obtain ⟨g, hg, rfl⟩ := List.mem_map.1 hp
    exact ⟨g, hg, rfl, GrammarPath.ofFile_inDirectory root g⟩
  refine ⟨fun p hp => ?_, fun p hp q hq heq => ?_, pairwise_filesOf hs, ?_⟩
  · obtain ⟨g, hg, rfl, hfile⟩ := hback p hp
    have hrest : root.rest? (g.inDirectory root) = some (.ofNames g.names) := by
      rw [GrammarPath.inDirectory, GrammarPath.toPath_eq]
      exact Path.rest?_join root (List.append_ne_nil_of_right_ne_nil _ (List.cons_ne_nil _ _))
    have hwants := ((mem_scan_iff hs).1 hg).2
    rw [wants, GrammarPath.toPath_eq] at hwants
    exact ⟨g, .ofNames g.names, hfile, hrest, hwants, by rw [g.display_eq, g.toPath_eq], rfl⟩
  · obtain ⟨g, -, rfl, hg⟩ := hback p hp
    obtain ⟨g', -, rfl, hg'⟩ := hback q hq
    rw [hg, hg'] at heq
    rw [Except.ok.inj heq]
  · rintro τ env c course rfl rfl rfl rfl
    obtain ⟨course', hrun, -⟩ := Pass.exists_run_collectBatch env c course
    rw [hs] at hrun
    exact ⟨⟨c.sourceDir, true, grammars⟩, by rw [hrun], rfl, rfl, mapM_ofFile c.sourceDir grammars,
      nodup_scan hs, rfl⟩

/-- A directory with a grammar and a directory that holds another one. -/
def mirrored : FileSystem where
  entries :=
    [(.ofNames [.ofString "m"], .directory),
      (.ofNames [.ofString "b", .ofString "m"], .directory),
      (.ofNames [.ofString "M.g", .ofString "b", .ofString "m"], .file ⟨[], false, none⟩),
      (.ofNames [.ofString "Q.g", .ofString "m"], .file ⟨[], false, none⟩)]
  nodup := by decide

/-- A spelling of the directory `/m` with more slashes than needed, `.` and `..`. -/
def oddRoot : Path := .ofString ".//m/../m//"

def mirroredConfig : BuildConfig where
  sourceDir := oddRoot
  includes := .ofList ["Q.g", "b/M.g"]
  defaultExcludes := false

theorem walk_mirrored : mirrored.walk .root oddRoot =
    .ok [[.ofString "b", .ofString "M.g"], [.ofString "Q.g"]] := by
  have hfind : mirrored.find .root oddRoot true = .ok (.ofNames [.ofString "m"], .directory) := by cbv
  have hs : mirrored.children (.ofNames [.ofString "m"]) =
      [(.ofString "b", .directory), (.ofString "Q.g", .file ⟨[], false, none⟩)] := by decide
  have hb : mirrored.visit .root [] ⟨.ofNames [.ofString "m"], oddRoot⟩ [] (.ofString "b", .directory) =
      .ok [[.ofString "b", .ofString "M.g"]] := by
    rw [FileSystem.visit, FileSystem.walkFrom_eq]
    exact (if_neg (by decide)).trans rfl
  rw [FileSystem.walk_of_directory hfind, FileSystem.walkFrom_eq, if_neg (by decide), hs]
  simp only [List.mapM_cons, List.mapM_nil]
  rw [hb]
  rfl

theorem filesIn_mirrored : (ofConfig mirroredConfig).filesIn mirrored .root oddRoot =
    .ok [.ofString ".//m/../m//Q.g", .ofString ".//m/../m//b/M.g"] := by
  rw [filesIn, walk_mirrored]
  decide +kernel

/-- Two files are found below that spelling of the directory, and a batch for it holds their two grammars. -/
theorem filesIn_relativized_mirrored :
    (ofConfig mirroredConfig).filesIn mirrored .root oddRoot =
      .ok [.ofString ".//m/../m//Q.g", .ofString ".//m/../m//b/M.g"] ∧
    (∃ g, GrammarPath.ofFile oddRoot (.ofString ".//m/../m//b/M.g") = .ok g ∧ g.display = "b/M.g" ∧
      g.inDirectory oddRoot = .ofString ".//m/../m//b/M.g") ∧
    ∃ batch, ((Pass.collectBatch { current := .root, searchPath := [] } mirroredConfig).run
        (.start mirrored : Course ToolCall)).1 = .ok batch ∧
      batch.grammars.map (·.inDirectory oddRoot) =
        [.ofString ".//m/../m//Q.g", .ofString ".//m/../m//b/M.g"] := by
  obtain ⟨hfiles, -, -, hbatch⟩ := filesIn_relativized filesIn_mirrored
  refine ⟨filesIn_mirrored, ?_, ?_⟩
  · obtain ⟨g, relative, hg, hrest, -, hdisplay, hback⟩ :=
      hfiles (.ofString ".//m/../m//b/M.g") (List.mem_cons_of_mem _ List.mem_cons_self)
    have hrelative : oddRoot.rest? (.ofString ".//m/../m//b/M.g") = some (.ofString "b/M.g") := by
      decide +kernel
    rw [hrelative, Option.some.injEq] at hrest
    have ht : (Path.ofString "b/M.g").display = "b/M.g" := by decide +kernel
    exact ⟨g, hg, by rw [hdisplay, ← hrest, ht], hback⟩
  · obtain ⟨batch, hrun, -, -, -, -, hmap⟩ := hbatch ToolCall { current := .root, searchPath := [] }
      mirroredConfig (.start mirrored) rfl rfl rfl rfl
    exact ⟨batch, hrun, hmap⟩

end Filter

end GrammarBatch
