import GrammarBatch.Config.Load
import GrammarBatch.Proofs.Config.Absolute
import GrammarBatch.Proofs.Files.FromRoot
import GrammarBatch.Proofs.Glob.PatternSet
import GrammarBatch.Proofs.Json.Fields
import Mathlib

/-!
# The layers of a configuration

The defaults lie under the configuration file, and the file under the command line.

* `BuildConfig.States`: what a text says, and which fields it leaves out;
* `BuildConfig.Under`: what lies under the command line;
* `BuildConfig.Layered`, `BuildConfig.Fails`: what each setting comes from, and the first stage that fails;
* **`BuildConfig.prepare_layers`**: the configuration for a command is laid together so, or fails so, and it
  does not depend on the current directory where the paths that are given do not.
-/

namespace GrammarBatch

/-- The directories on the command line. -/
def Overrides.directories (o : Overrides) : List Path :=
  o.sourceDir.toList ++ o.outputDir.toList ++ o.libDir.toList

namespace BuildConfig

open Json Json.Reader Json.Schema

variable {fs : FileSystem} {current : Place} {path : Option Path} {o : Overrides} {file c : BuildConfig}
  {text : String} {fields : List String}

/-! ## The file -/

/-- Reads a configuration, and the names of the fields that come. -/
def notingReader : Reader (BuildConfig × List String) := noting "BuildConfig" table {}

/-- The text gives the configuration, and has just these fields. A directory that it leaves out is the usual
one. -/
structure States (text : String) (file : BuildConfig) (fields : List String) : Prop where
  given : ofText text = .ok file
  noted : notingReader.run text.toList = .ok (file, fields)
  source : "source-dir" ∉ fields → file.sourceDir = .ofString "src/grammars"
  output : "output-dir" ∉ fields → file.outputDir = .ofString "target/generated-sources/grammars"
  lib : "lib-dir" ∉ fields → file.libDir = none

theorem keeps_put {α : Type} {Q : BuildConfig → Prop} {key : String} {r : Reader α}
    {put : α → BuildConfig → BuildConfig} (h : ∀ a c, Q c → Q (put a c)) : Keeps Q (Member.of key r put) :=
  keeps_of (yields_any r) fun a c _ hc => h a c hc

theorem keeps_directories (source output : Path) (lib : Option Path) : ∀ f ∈ table,
    (f.key ≠ "source-dir" → Keeps (fun c => c.sourceDir = source) f) ∧
      (f.key ≠ "output-dir" → Keeps (fun c => c.outputDir = output) f) ∧
      (f.key ≠ "lib-dir" → Keeps (fun c => c.libDir = lib) f) := by
  intro f hf
  simp only [table, List.mem_cons, List.not_mem_nil, or_false] at hf
  rcases hf with rfl | rfl | rfl | rfl | rfl | rfl | rfl | rfl <;>
    refine ⟨fun hkey => ?_, fun hkey => ?_, fun hkey => ?_⟩ <;>
    first
    | exact absurd rfl hkey
    | exact keeps_put fun _ _ hc => hc

theorem exists_states (h : ofText text = .ok file) : ∃ fields, States text file fields := by
  obtain ⟨fields, hnoted⟩ := run_of_follows (follows_noting "BuildConfig" table {}) (mapError_eq_ok.1 h)
  have hkeeps := keeps_directories (.ofString "src/grammars") (.ofString "target/generated-sources/grammars") none
  exact
    ⟨fields,
      { given := h
        noted := hnoted
        source := of_run (yields_noting fun f hf => (hkeeps f hf).1) hnoted
        output := of_run (yields_noting fun f hf => (hkeeps f hf).2.1) hnoted
        lib := of_run (yields_noting fun f hf => (hkeeps f hf).2.2) hnoted }⟩

/-! ## Laying the layers over one another -/

/-- A directory in a file is read from the directory around the file. -/
def fromFile (path : Option Path) (d : Path) : Path :=
  match path with
  | some path => (path.parent?.getD ⟨[]⟩).join d
  | none => d

/-- What lies under the command line: what the file that is named says, or else the defaults. -/
inductive Under (fs : FileSystem) (current : Place) : Option Path → BuildConfig → Prop where
  | file {path : Path} {text : String} {file : BuildConfig} {fields : List String}
    (hread : fs.readText current path = .ok text) (hstates : States text file fields) :
    Under fs current (some path) file
  | defaults : Under fs current none {}

/-- The source directory, the output directory and the library directory, if one is given: each from the
uppermost layer that gives it. -/
def givenDirectories (path : Option Path) (file : BuildConfig) (o : Overrides) : List Path :=
  [o.sourceDir.getD (fromFile path file.sourceDir), o.outputDir.getD (fromFile path file.outputDir)] ++
    (o.libDir.or (file.libDir.map (fromFile path))).toList

/-- What each setting of the configuration comes from. -/
structure Layered (fs : FileSystem) (current : Place) (path : Option Path) (file : BuildConfig) (o : Overrides)
    (c : BuildConfig) : Prop where
  source : Path.resolve (fs.pathOf? current) (o.sourceDir.getD (fromFile path file.sourceDir)) = .ok c.sourceDir
  output : Path.resolve (fs.pathOf? current) (o.outputDir.getD (fromFile path file.outputDir)) = .ok c.outputDir
  /-- The usual library directory is in the source directory of the uppermost layer that gives one. -/
  library : match o.libDir.or (file.libDir.map (fromFile path)) with
    | some d => Path.resolve (fs.pathOf? current) d = .ok c.libraryDirectory
    | none => c.libraryDirectory = c.sourceDir.join ⟨importsName.bytes⟩
  includes : ∀ t, t ∈ c.includes.texts ↔ if o.includes = [] then t ∈ file.includes.texts else t ∈ o.includes
  excludes : ∀ t, t ∈ c.excludes.texts ↔ t ∈ file.excludes.texts ∨ t ∈ o.excludes

/-- Why there is no configuration. Each stage comes after the others have succeeded. -/
inductive Fails (fs : FileSystem) (current : Place) (o : Overrides) : Option Path → ConfigError → Prop where
  | unreadable {path : Path} {cause : SystemError} (hread : fs.readText current path = .error cause) :
    Fails fs current o (some path) (.unreadable path cause)
  | malformed {path : Path} {text : String} {fault : Fault} (hread : fs.readText current path = .ok text)
    (hfault : reader.run text.toList = .error fault) : Fails fs current o (some path) (.malformed text fault)
  | unresolved {path : Option Path} {file : BuildConfig} {before after : List Path} {d : Path}
    {cause : SystemError} (hunder : Under fs current path file)
    (hgiven : givenDirectories path file o = before ++ d :: after)
    (hbefore : ∀ b ∈ before, ∃ q, Path.resolve (fs.pathOf? current) b = .ok q)
    (hd : Path.resolve (fs.pathOf? current) d = .error (.unresolved d cause)) :
    Fails fs current o path (.unresolved d cause)

/-- The configuration of the file with its directories read from the directory around the file. -/
def seenFrom (path : Option Path) (file : BuildConfig) : BuildConfig :=
  { file with
    sourceDir := fromFile path file.sourceDir
    outputDir := fromFile path file.outputDir
    libDir := file.libDir.map (fromFile path) }

theorem prepare_of_under (h : Under fs current path file) (o : Overrides) :
    prepare fs current path o = (o.apply (seenFrom path file)).absolute (fs.pathOf? current) := by
  cases h with
  | defaults => rfl
  | file hread hstates =>
    rename_i path text fields
    have hload : load fs current path = .ok (file.rootedAt (path.parent?.getD ⟨[]⟩)) := by
      rw [load, hread]
      change (ofText text >>= fun c => _) = _
      rw [hstates.given]
      rfl
    rw [prepare]
    dsimp only
    rw [hload]
    rfl

theorem layered_of_absolute (h : (o.apply (seenFrom path file)).absolute (fs.pathOf? current) = .ok c) :
    Layered fs current path file o c := by
  obtain ⟨source, output, lib, hs, ho, hl, rfl⟩ := absolute_eq_ok h
  refine ⟨hs, ho, ?_, fun t => ?_, fun t => ?_⟩
  · change (o.libDir.or (file.libDir.map (fromFile path))).mapM _ = _ at hl
    cases hd : o.libDir.or (file.libDir.map (fromFile path)) with
    | none =>
      rw [hd] at hl
      cases hl
      rfl
    | some d =>
      rw [hd, Option.mapM_some] at hl
      obtain ⟨q, hq, rfl⟩ := map_eq_ok.1 hl
      exact hq
  · change t ∈ (if o.includes.isEmpty then file.includes else .ofList o.includes).texts ↔ _
    by_cases hi : o.includes = []
    · rw [if_pos (by simp [hi]), if_pos hi]
    · rw [if_neg (by simpa using hi), if_neg hi, PatternSet.ofList, PatternSet.mem_texts_insertAll]
      simp
  · change t ∈ (file.excludes.insertAll o.excludes).texts ↔ _
    rw [PatternSet.mem_texts_insertAll, or_comm]

theorem fails_of_absolute {x : ConfigError} (hunder : Under fs current path file)
    (h : (o.apply (seenFrom path file)).absolute (fs.pathOf? current) = .error x) :
    Fails fs current o path x := by
  obtain ⟨before, d, after, hgiven, hbefore, hd⟩ := absolute_eq_error_iff.1 h
  obtain ⟨cause, rfl⟩ := Path.exists_cause_of_resolve hd
  exact .unresolved hunder hgiven hbefore hd

/-- Either there is something under the command line, or the file is at fault. -/
theorem under_or_fails (fs : FileSystem) (current : Place) (path : Option Path) (o : Overrides) :
    (∃ file, Under fs current path file) ∨
      ∃ x, prepare fs current path o = .error x ∧ Fails fs current o path x := by
  cases path with
  | none => exact Or.inl ⟨{}, .defaults⟩
  | some path =>
    cases hread : fs.readText current path with
    | error cause =>
      refine Or.inr ⟨_, ?_, .unreadable hread⟩
      rw [prepare, load, hread]
      rfl
    | ok text =>
      cases htext : ofText text with
      | ok file =>
        obtain ⟨fields, hstates⟩ := exists_states htext
        exact Or.inl ⟨file, .file hread hstates⟩
      | error x =>
        obtain ⟨fault, hfault, rfl⟩ := mapError_eq_error.1 htext
        refine Or.inr ⟨_, ?_, .malformed hread hfault⟩
        rw [prepare, load, hread]
        change ((ofText text >>= fun c => _) >>= fun base => _) = _
        rw [htext]
        rfl

/-! ## From another directory -/

theorem isAbsolute_givenDirectories {p : Path} (hp : p.isAbsolute = true) (hread : fs.readText current p = .ok text)
    (ho : ∀ d ∈ o.directories, d.isAbsolute = true) :
    ∀ d ∈ givenDirectories (some p) file o, d.isAbsolute = true := by
  have hfile (d : Path) : (fromFile (some p) d).isAbsolute = true :=
    Path.isAbsolute_join (FileSystem.isAbsolute_parent_of_readText hp hread) d
  have hgetD {given : Option Path} (hg : ∀ d ∈ given, d.isAbsolute = true) (d : Path) :
      (given.getD (fromFile (some p) d)).isAbsolute = true := by
    cases given with
    | none => exact hfile d
    | some q => exact hg q rfl
  intro d hd
  simp only [givenDirectories, List.mem_append, List.mem_cons, List.not_mem_nil, or_false, Option.mem_toList] at hd
  simp only [Overrides.directories, List.mem_append, Option.mem_toList] at ho
  rcases hd with (rfl | rfl) | hd
  · exact hgetD (fun q hq => ho q (Or.inl (Or.inl hq))) _
  · exact hgetD (fun q hq => ho q (Or.inl (Or.inr hq))) _
  · rw [Option.or_eq_some_iff] at hd
    rcases hd with hd | ⟨-, hd⟩
    · exact ho d (Or.inr hd)
    · obtain ⟨q, -, rfl⟩ := Option.map_eq_some_iff.1 hd
      exact hfile q

theorem prepare_elsewhere {p : Path} (hp : p.isAbsolute = true) (ho : ∀ d ∈ o.directories, d.isAbsolute = true)
    (elsewhere : Place) : prepare fs elsewhere (some p) o = prepare fs current (some p) o := by
  have hload : load fs elsewhere p = load fs current p := by
    rw [load, load, FileSystem.readText_of_isAbsolute hp elsewhere current]
  rw [prepare, prepare]
  dsimp only
  rw [hload]
  cases hl : load fs current p with
  | error x => rfl
  | ok base =>
    obtain ⟨text, hread, hl⟩ := bind_eq_ok.1 hl
    obtain ⟨file, -, hbase⟩ := bind_eq_ok.1 hl
    cases hbase
    have hdirs : ∀ d ∈ (o.apply (file.rootedAt (p.parent?.getD ⟨[]⟩))).directories, d.isAbsolute = true :=
      isAbsolute_givenDirectories hp (mapError_eq_ok.1 hread) ho
    exact absolute_of_isAbsolute hdirs _ _

/-- **The configuration for a command is laid together from the command line, the file and the defaults, or the
first stage that fails tells why there is none. With paths from the root on the command line it is the same in
every directory.** -/
theorem prepare_layers (fs : FileSystem) (current : Place) (path : Option Path) (o : Overrides) :
    (match prepare fs current path o with
      | .ok c => ∃ file, Under fs current path file ∧ Layered fs current path file o c
      | .error x => Fails fs current o path x) ∧
    ∀ p, path = some p → p.isAbsolute = true → (∀ d ∈ o.directories, d.isAbsolute = true) →
      ∀ elsewhere, prepare fs elsewhere path o = prepare fs current path o := by
  refine ⟨?_, ?_⟩
  · rcases under_or_fails fs current path o with ⟨file, hunder⟩ | ⟨x, hx, hfails⟩
    · cases hp : prepare fs current path o with
      | ok c =>
        rw [prepare_of_under hunder] at hp
        exact ⟨file, hunder, layered_of_absolute hp⟩
      | error x =>
        rw [prepare_of_under hunder] at hp
        exact fails_of_absolute hunder hp
    · rw [hx]
      exact hfails
  · rintro p rfl hp ho elsewhere
    exact prepare_elsewhere hp ho elsewhere

/-- A configuration file that gives the output directory. -/
def filed : FileSystem where
  entries :=
    [(.ofNames [.ofString "etc"], .directory),
      (.ofNames [.ofString "g.json", .ofString "etc"],
        .file ⟨Utf8.encode "\x7b\"output-dir\": \"out\"\x7d", false, none⟩)]
  nodup := by decide

def filedOverrides : Overrides := { sourceDir := some (.ofString "/src") }

theorem prepare_filed : prepare filed .root (some (.ofString "/etc/g.json")) filedOverrides =
    .ok { sourceDir := .ofString "/src", outputDir := .ofString "/etc/out" } := by
  cbv

/-- The source directory of the command line, and the library directory in it, with the output directory of the
file. -/
theorem prepare_layers_filed : ∃ file c,
    prepare filed .root (some (.ofString "/etc/g.json")) filedOverrides = .ok c ∧
    Layered filed .root (some (.ofString "/etc/g.json")) file filedOverrides c ∧
    c.libraryDirectory = .ofString "/src/imports" ∧ c.outputDir = .ofString "/etc/out" ∧
    ∀ elsewhere, prepare filed elsewhere (some (.ofString "/etc/g.json")) filedOverrides = .ok c := by
  have hp : (Path.ofString "/etc/g.json").isAbsolute = true := by decide
  have ho : ∀ d ∈ filedOverrides.directories, d.isAbsolute = true := by decide
  obtain ⟨hlayers, hsame⟩ := prepare_layers filed .root (some (.ofString "/etc/g.json")) filedOverrides
  rw [prepare_filed] at hlayers
  obtain ⟨file, -, hlayered⟩ := hlayers
  refine ⟨file, _, prepare_filed, hlayered, by decide, rfl, ?_⟩
  intro elsewhere
  rw [hsame _ rfl hp ho elsewhere, prepare_filed]

end BuildConfig

end GrammarBatch
