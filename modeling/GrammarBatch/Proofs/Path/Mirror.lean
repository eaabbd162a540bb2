import GrammarBatch.Proofs.Path.Rest

/-!
# One tree below two roots

A grammar path is what the path of a file adds to that of its root. Put below another root it makes the same
tree there.

* `GrammarPath.between?_eq_some_iff`: the parts of the file are those of the root, and then the names of the
  grammar path;
* `GrammarPath.pieces_toPath`, `GrammarPath.toPath_injective`: its one spelling;
* **`GrammarPath.between?_canonical`**: which files have a grammar path, and what it says of them;
* `GrammarPath.components_outputDirectory`: the directory for the results of a grammar;
* **`GrammarPath.outputDirectory_mirrors`**: below an output directory each grammar has its own place again.
-/

namespace GrammarBatch.GrammarPath

variable {root file output : Path} {g h : GrammarPath} {names : List Name}

/-! ## Parts behind those of a root -/

theorem names?_eq_some_iff {parts : List Component} : names? parts = some names ↔ parts = names.map .name := by
  constructor
  · intro h
    induction parts generalizing names with
    | nil =>
      obtain rfl : [] = names := Option.some.inj h
      rfl
    | cons c parts ih =>
      cases c with
      | name n =>
        obtain ⟨rest, hrest, rfl⟩ := Option.map_eq_some_iff.1 h
        rw [List.map_cons, ← ih hrest]
      | _ => cases h
  · rintro rfl
    exact names?_map names

theorem names_ne_nil (g : GrammarPath) : g.names ≠ [] := by
  show g.folders ++ [g.fileName] ≠ []
  simp

/-- A file has the grammar path whose names its parts are behind those of the root. -/
theorem between?_eq_some_iff :
    between? root file = some g ↔ file.components = root.components ++ g.names.map .name := by
  simp only [between?, Option.bind_eq_bind, Option.bind_eq_some_iff, List.isPrefixOf?_eq_some_iff_append_eq,
    names?_eq_some_iff, ofNames?_eq_some_iff]
  constructor
  · rintro ⟨rest, hrest, names, rfl, rfl⟩
    exact hrest.symm
  · intro h
    exact ⟨_, h.symm, g.names, rfl, rfl⟩

theorem isSome_between?_iff : (between? root file).isSome = true ↔
    ∃ names, names ≠ [] ∧ file.components = root.components ++ names.map .name := by
  rw [Option.isSome_iff_exists]
  constructor
  · rintro ⟨g, hg⟩
    exact ⟨g.names, g.names_ne_nil, between?_eq_some_iff.1 hg⟩
  · rintro ⟨names, hne, hfile⟩
    obtain ⟨g, rfl⟩ := exists_names hne
    exact ⟨g, between?_eq_some_iff.2 hfile⟩

theorem ofFile_eq_error_iff {x : OutsideRoot} :
    ofFile root file = .error x ↔ between? root file = none ∧ x = ⟨root, file⟩ := by
  unfold ofFile
  cases between? root file <;> simp [eq_comm]

theorem components_inDirectory (g : GrammarPath) (root : Path) :
    (g.inDirectory root).components = root.components ++ g.names.map .name := by
  rw [inDirectory, toPath_eq, Path.components_join_ofNames]

/-! ## The spelling of a grammar path -/

theorem pieces_toPath (g : GrammarPath) : g.toPath.pieces = g.names.map (·.bytes) := by
  rw [toPath_eq]
  exact Path.splitOn_bytes_ofNames g.names_ne_nil

theorem toPath_injective (he : g.toPath.bytes = h.toPath.bytes) : g = h := by
  rw [toPath_eq, toPath_eq] at he
  exact names_injective (Path.ofNames_injective (congrArg Path.mk he))

/-- **A file has a grammar path exactly if its parts are those of the root and then names, however both are
spelled and also as what is left is written. The grammar path leads back to the file, and its own spelling is the
names with single slashes between them, by which grammar paths are told apart.** -/
theorem between?_canonical (root file : Path) :
    ((between? root file).isSome = true ↔
      ∃ names, names ≠ [] ∧ file.components = root.components ++ names.map .name) ∧
    (∀ x, ofFile root file = .error x ↔ between? root file = none ∧ x = ⟨root, file⟩) ∧
    (between? root file = (root.rest? file).bind fun rest => (names? rest.components).bind ofNames?) ∧
    (∀ root' file', root'.components = root.components → file'.components = file.components →
      between? root' file' = between? root file) ∧
    ∀ g, between? root file = some g →
      file.components = root.components ++ g.names.map .name ∧
      (g.inDirectory root).components = file.components ∧
      g.toPath.bytes = [slash].intercalate (g.names.map (·.bytes)) ∧
      (∀ b ∈ g.toPath.pieces, b ≠ [] ∧ b ≠ [dot] ∧ b ≠ [dot, dot]) ∧
      ∀ root' file' h, between? root' file' = some h → (g = h ↔ g.toPath.bytes = h.toPath.bytes) := by
  refine ⟨isSome_between?_iff, fun x => ofFile_eq_error_iff, between?_eq_rest? root file, ?_, fun g hg => ?_⟩
  · intro root' file' hroot hfile
    rw [between?, between?, hroot, hfile]
  · have hfile := between?_eq_some_iff.1 hg
    refine ⟨hfile, by rw [components_inDirectory, hfile], ?_, fun b hb => ?_, fun root' file' h _ => ?_⟩
    · rw [toPath_eq]
      rfl
    · rw [pieces_toPath] at hb
      obtain ⟨n, -, rfl⟩ := List.mem_map.1 hb
      exact ⟨n.isName.1, n.isName.2.2.1, n.isName.2.2.2⟩
    · exact ⟨fun he => by rw [he], toPath_injective⟩

/-- Two spellings of a directory and of a file below it, with the directory `..` among their names. -/
theorem between?_canonical_climbing :
    let g : GrammarPath := ⟨[.ofString "b"], .ofString "M.g"⟩
    between? (.ofString ".//m/../m//") (.ofString "./m/..//m/./b/M.g/") = some g ∧
    between? (.ofString "./m/../m") (.ofString "./m/../m/b//M.g") = some g ∧
    (g.inDirectory (.ofString ".//m/../m//")).components = (Path.ofString "./m/../m/b/M.g").components ∧
    (∀ b ∈ g.toPath.pieces, b ≠ [] ∧ b ≠ [dot] ∧ b ≠ [dot, dot]) := by
  intro g
  have hfirst : between? (.ofString ".//m/../m//") (.ofString "./m/..//m/./b/M.g/") = some g := by decide +kernel
  obtain ⟨-, -, -, hspelling, hback⟩ :=
    between?_canonical (.ofString ".//m/../m//") (.ofString "./m/..//m/./b/M.g/")
  obtain ⟨-, hfile, -, hpieces, -⟩ := hback g hfirst
  refine ⟨hfirst, ?_, hfile.trans (by decide +kernel), hpieces⟩
  exact (hspelling _ _ (by decide +kernel) (by decide +kernel)).trans hfirst

/-! ## Below an output directory -/

theorem components_outputDirectory (g : GrammarPath) (output : Path) :
    (g.outputDirectory output).components = output.components ++ g.folders.map .name := by
  obtain ⟨folders, fileName⟩ := g
  cases folders with
  | nil => exact (List.append_nil _).symm
  | cons n folders => exact Path.components_join_ofNames output (n :: folders)

theorem components_join_name (p : Path) (n : Name) : (p.join ⟨n.bytes⟩).components = p.components ++ [.name n] := by
  rw [← Path.bytes_ofNames_singleton n]
  exact Path.components_join_ofNames p [n]

theorem components_output (g : GrammarPath) (output : Path) :
    ((g.outputDirectory output).join ⟨g.fileName.bytes⟩).components =
      output.components ++ g.names.map .name := by
  rw [components_join_name, components_outputDirectory, names, List.map_append, List.append_assoc]
  rfl

/-- **The tree below an output directory has the shape of the tree below the root: a grammar has the same grammar
path in both. So nothing is put outside of the output directory, and no two grammars of one root share a name in
one directory.** -/
theorem outputDirectory_mirrors (output : Path) :
    (∀ g : GrammarPath, between? output ((g.outputDirectory output).join ⟨g.fileName.bytes⟩) = some g) ∧
    (∀ g : GrammarPath, (g.outputDirectory output).components = output.components ++ g.folders.map .name) ∧
    ∀ root file file' g g', between? root file = some g → between? root file' = some g' →
      (g.outputDirectory output).components = (g'.outputDirectory output).components →
      g.fileName = g'.fileName → g = g' ∧ file.components = file'.components := by
  refine ⟨fun g => between?_eq_some_iff.2 (g.components_output output),
    fun g => g.components_outputDirectory output, ?_⟩
  intro root file file' g g' hg hg' hdirectory hname
  have hplace : ((g.outputDirectory output).join ⟨g.fileName.bytes⟩).components =
      ((g'.outputDirectory output).join ⟨g'.fileName.bytes⟩).components := by
    rw [components_join_name, components_join_name, hdirectory, hname]
  rw [components_output, components_output, List.append_cancel_left_eq] at hplace
  have hsame : g = g' := names_injective (List.map_injective_iff.2 (fun _ _ => Component.name.inj) hplace)
  rw [between?_eq_some_iff.1 hg, between?_eq_some_iff.1 hg', hsame]
  exact ⟨rfl, rfl⟩

/-- A grammar and one of the same name in a directory keep apart, below an output directory with `..` in its path
and below the empty one. -/
theorem outputDirectory_mirrors_beside :
    let outer : GrammarPath := ⟨[], .ofString "M.g"⟩
    let inner : GrammarPath := ⟨[.ofString "M"], .ofString "M.g"⟩
    between? (.ofString "o/../p//") (.ofString "o/../p//M/M.g") = some inner ∧
    between? (.ofString "") (.ofString "M.g") = some outer ∧
    (outer.outputDirectory (.ofString "o/../p//")).components ≠
      (inner.outputDirectory (.ofString "o/../p//")).components := by
  intro outer inner
  obtain ⟨hplace, -, hapart⟩ := outputDirectory_mirrors (.ofString "o/../p//")
  have hinner : (inner.outputDirectory (.ofString "o/../p//")).join ⟨inner.fileName.bytes⟩ =
      .ofString "o/../p//M/M.g" := by decide +kernel
  have houter : (outer.outputDirectory (.ofString "")).join ⟨outer.fileName.bytes⟩ = .ofString "M.g" := by
    decide +kernel
  refine ⟨hinner ▸ hplace inner, houter ▸ (outputDirectory_mirrors (.ofString "")).1 outer, fun h => ?_⟩
  have hsource : between? (.ofString "src") (.ofString "src/M.g") = some outer := by decide +kernel
  have hsource' : between? (.ofString "src") (.ofString "src/M/M.g") = some inner := by decide +kernel
  obtain ⟨hsame, -⟩ := hapart _ _ _ outer inner hsource hsource' h rfl
  exact absurd hsame (by decide)

end GrammarBatch.GrammarPath
