import GrammarBatch.Proofs.Config.SpelledOut
import GrammarBatch.Proofs.Files.SpelledOut
import GrammarBatch.Proofs.Pass.Stages

/-!
# Configurations that are the same from every directory

* `Path.absolute?_join_ofNames`: what lies below a directory is spelled out below the directory as it is
  spelled out;
* `Path.SameDirectory`: a path and the one it is spelled out as lead to the same directory;
* `BuildConfig.SpellsOut`: what a configuration with its directories spelled out has to do with the one that
  it was made from;
* **`BuildConfig.absolute_spellsOut`**: spelling out fails only for an empty directory, and else changes nothing
  but the spelling: neither the pass nor the directories of the tool depend on it.
-/

namespace GrammarBatch

namespace Path

variable {p q : Path} {parts : List Component} {names : List Name}

theorem hasDoubleRoot_join (hp : p.bytes ≠ []) (hne : q.bytes ≠ []) (hq : q.isAbsolute = false) :
    (p.join q).hasDoubleRoot = p.hasDoubleRoot := by
  obtain ⟨b, bs, hb⟩ := List.exists_cons_of_ne_nil hne
  have hslash : b ≠ slash := by
    rintro rfl
    rw [isAbsolute, hb] at hq
    cases hq
  have hfirst : (some b != some slash) = true := by simp [hslash]
  have hend : p.endsInSlash = (p.bytes.getLast? == some slash) := rfl
  rw [hasDoubleRoot, hasDoubleRoot, bytes_join p hq, gap, hend, hb]
  -- Two bytes decide, and the one after them. Only a shorter directory leaves some of them to what follows.
  rcases hbytes : p.bytes with _ | ⟨x, _ | ⟨y, _ | ⟨z, rest⟩⟩⟩
  · exact absurd hbytes hp
  · by_cases hx : x = slash <;> simp [hx, hslash]
  · by_cases hy : y = slash <;> simp [hy, hfirst]
  · simp

theorem gap_closed (p : Path) : (p.closed true).gap = [] := by
  rw [gap]
  by_cases hp : p.bytes = []
  · simp [bytes_closed, gap, hp]
  · rw [if_pos (Or.inr (by rw [endsInSlash_closed hp, Bool.true_or]))]

theorem join_closed (p : Path) (atEnd : Bool) (hq : q.isAbsolute = false) :
    (p.closed atEnd).join q = p.join q := by
  cases atEnd with
  | false => rfl
  | true =>
    have hbytes : ((p.closed true).join q).bytes = (p.join q).bytes := by
      rw [bytes_join _ hq, bytes_join _ hq, gap_closed, bytes_closed, if_pos rfl, List.append_nil]
    exact congrArg Path.mk hbytes

theorem join_ofPieces (h : ∀ c ∈ parts, c ≠ .root) (hne : parts ≠ []) (hn : names ≠ []) :
    (ofPieces (parts.map Component.bytes)).join (ofNames names) =
      ofPieces ((parts ++ names.map Component.name).map Component.bytes) := by
  obtain ⟨b, rest, hb, -⟩ := exists_bytes_ofPieces h hne
  have hgap : (ofPieces (parts.map Component.bytes)).gap = [slash] := by
    rw [gap, if_neg (by simp [hb, endsInSlash_ofPieces h])]
  have hbytes : ((ofPieces (parts.map Component.bytes)).join (ofNames names)).bytes =
      (ofPieces ((parts ++ names.map Component.name).map Component.bytes)).bytes := by
    rw [bytes_join _ (isAbsolute_ofNames names), hgap, List.map_append,
      bytes_ofPieces_append (by simpa using hne) (by simpa using hn), ofNames_eq, List.append_assoc,
      List.singleton_append]
  exact congrArg Path.mk hbytes

/-- **What lies below a directory is spelled out below the directory as it is spelled out.** -/
theorem absolute?_join_ofNames (current : Path) (hp : p.bytes ≠ []) (hn : names ≠ []) :
    (p.join (ofNames names)).absolute? current = (p.absolute? current).map (·.join (ofNames names)) := by
  have hrel := isAbsolute_ofNames names
  have hne : (ofNames names).bytes ≠ [] := fun h => hn (bytes_ofNames_eq_nil_iff.1 h)
  have hjoin : (p.join (ofNames names)).bytes ≠ [] := by simp [bytes_join p hrel, hne]
  have hnames : (names.map Component.name).filter (fun c => c != .here && c != .root) = names.map .name := by
    rw [List.filter_eq_self.2]
    simp
  have hparts : ∀ c ∈ p.components.filter (fun c => c != .here && c != .root), c ≠ .root := by
    intro c hc
    have hkept := (List.mem_filter.1 hc).2
    rw [Bool.and_eq_true, bne_iff_ne, bne_iff_ne] at hkept
    exact hkept.2
  rw [absolute?_eq_closed hp, absolute?_eq_closed hjoin, Option.map_some, join_closed _ _ hrel,
    endsInSlash_join p hne hrel, endsInSlash_ofNames, hasDoubleRoot_join hp hne hrel, isAbsolute_join_eq hp hrel,
    components_join_ofNames, List.filter_append, hnames]
  generalize p.components.filter (fun c => c != .here && c != .root) = parts at hparts
  dsimp only
  rw [if_neg (by simp [hn])]
  by_cases hnil : parts = []
  · rw [if_pos hnil, hnil, List.nil_append, ← ofNames_eq]
    rfl
  · obtain ⟨b, rest, hb, -⟩ := exists_bytes_ofPieces hparts hnil
    rw [if_neg hnil, join_join _ (by simp [hb]) (isAbsolute_ofPieces hparts) hrel, join_ofPieces hparts hnil hn]
    rfl

theorem absolute?_eq_none_iff {current : Path} : p.absolute? current = none ↔ p.bytes = [] := by
  unfold absolute?
  split <;> simp_all

theorem resolve_some (d p : Path) : resolve (some d) p =
    match p.absolute? d with
    | none => .error (.unresolved p .emptyPath)
    | some q => .ok q := by
  unfold resolve
  rw [Option.getD_some]
  cases p.absolute? d <;> rfl

theorem resolve_some_eq_ok {d p q : Path} : resolve (some d) p = .ok q ↔ p.absolute? d = some q := by
  rw [resolve_some]
  cases p.absolute? d <;> simp

theorem resolve_some_eq_error {d p : Path} {x : ConfigError} :
    resolve (some d) p = .error x ↔ p.bytes = [] ∧ x = .unresolved p .emptyPath := by
  rw [resolve_some, ← @absolute?_eq_none_iff p d, eq_comm]
  cases p.absolute? d <;> simp

/-- From anywhere the second path leads to the directory that the first one leads to from `here`, and to no other.
This is said of a system that takes both paths, and the names that lead to `here`. -/
def SameDirectory (here : Place) (p q : Path) : Prop :=
  ∀ fs : FileSystem, fs.pathOf? here = some here.toPath →
    (∀ n ∈ here.names, n.bytes.length ≤ FileSystem.maxName) →
    FileSystem.pathFault? p = none → FileSystem.pathFault? q = none →
    ∀ anywhere d, fs.find anywhere q true = .ok (d, .directory) ↔ fs.find here p true = .ok (d, .directory)

theorem sameDirectory_of_absolute? {here : Place} (h : p.absolute? here.toPath = some q) :
    SameDirectory here p q := by
  intro fs hcur hnames hp hq anywhere d
  exact FileSystem.find_directory_absolute?_iff hcur hnames h hp hq anywhere

end Path

theorem Pass.run_of_absolute {τ ε : Type} {env : Environment} {tools : Toolchain τ ε} {c c' : BuildConfig}
    {course : Course τ} (h : c.absolute (course.files.pathOf? env.current) = .ok c') :
    (run env tools c).run course = (Job.step .resolve >>= fun _ => runResolved env tools c').run course := by
  obtain ⟨course₁, h₁, hfiles, -⟩ := Job.exists_run_step .resolve course
  rw [run, Job.run_bind, Job.run_bind, h₁, Job.run_files, Job.run_bind, h₁, hfiles]
  dsimp only
  rw [h]

namespace BuildConfig

variable {here : Place} {c c' : BuildConfig}

/-- The second configuration is the first one with its directories spelled out, read from `here`. -/
structure SpellsOut (here : Place) (c c' : BuildConfig) : Prop where
  source : c.sourceDir.absolute? here.toPath = some c'.sourceDir
  output : c.outputDir.absolute? here.toPath = some c'.outputDir
  lib : c.libDir.mapM (·.absolute? here.toPath) = some c'.libDir
  /-- The usual library directory is spelled out with the source directory that it is in. -/
  library : c.libraryDirectory.absolute? here.toPath = some c'.libraryDirectory
  others : c' = { c with sourceDir := c'.sourceDir, outputDir := c'.outputDir, libDir := c'.libDir }
  fromRoot : ∀ d ∈ c'.directories, d.isAbsolute = true
  sourceSame : Path.SameDirectory here c.sourceDir c'.sourceDir
  outputSame : Path.SameDirectory here c.outputDir c'.outputDir
  librarySame : Path.SameDirectory here c.libraryDirectory c'.libraryDirectory
  again : c'.absolute (some here.toPath) = .ok c'

theorem mapM_resolve_some {d : Path} {o o' : Option Path} (h : o.mapM (Path.resolve (some d)) = .ok o') :
    o.mapM (·.absolute? d) = some o' := by
  cases o with
  | none =>
    cases h
    rfl
  | some p =>
    rw [Option.mapM_some] at h
    obtain ⟨q, hq, rfl⟩ := map_eq_ok.1 h
    rw [Option.mapM_some, Path.resolve_some_eq_ok.1 hq]
    rfl

/-- The usual library directory moves with the source directory, and a configured one is spelled out itself. -/
theorem libraryDirectory_absolute? (hs : c.sourceDir.absolute? here.toPath = some c'.sourceDir)
    (hl : c.libDir.mapM (·.absolute? here.toPath) = some c'.libDir) :
    c.libraryDirectory.absolute? here.toPath = some c'.libraryDirectory := by
  rw [libraryDirectory, libraryDirectory]
  cases hd : c.libDir with
  | none =>
    have hnone : c'.libDir = none := by
      rw [hd] at hl
      exact (Option.some.inj hl).symm
    have hne : c.sourceDir.bytes ≠ [] := by
      intro hnil
      rw [Path.absolute?_eq_none_iff.2 hnil] at hs
      cases hs
    have himports : (⟨importsName.bytes⟩ : Path) = .ofNames [importsName] :=
      congrArg Path.mk (Path.bytes_ofNames_singleton importsName).symm
    rw [hnone, Option.getD_none, Option.getD_none, himports,
      Path.absolute?_join_ofNames _ hne (by simp), hs, Option.map_some]
  | some d =>
    rw [hd, Option.mapM_some] at hl
    obtain ⟨q, hq, hl⟩ := Option.map_eq_some_iff.1 hl
    rw [← hl, Option.getD_some, Option.getD_some, hq]

theorem spellsOut_of_absolute (h : c.absolute (some here.toPath) = .ok c') : SpellsOut here c c' := by
  have hcur : ∀ d ∈ some here.toPath, ∃ place : Place, d = place.toPath := by
    intro d hd
    exact ⟨here, (Option.some.inj hd).symm⟩
  have hagain := absolute_absolute hcur h
  have hroot : ∀ d ∈ c'.directories, d.isAbsolute = true := by
    have hall := directories_absolute (some here.toPath) c
    rw [h] at hall
    intro d hd
    obtain ⟨p, -, hp⟩ := exists_of_mem_mapM hall.symm hd
    exact Path.isAbsolute_of_resolve (fun q hq => by rw [← Option.some.inj hq]; rfl) hp
  obtain ⟨source, output, lib, hs, ho, hl, rfl⟩ := absolute_eq_ok h
  have hs := Path.resolve_some_eq_ok.1 hs
  have ho := Path.resolve_some_eq_ok.1 ho
  have hl := mapM_resolve_some hl
  exact
    { source := hs
      output := ho
      lib := hl
      library := libraryDirectory_absolute? hs hl
      others := rfl
      fromRoot := hroot
      sourceSame := Path.sameDirectory_of_absolute? hs
      outputSame := Path.sameDirectory_of_absolute? ho
      librarySame := Path.sameDirectory_of_absolute? (libraryDirectory_absolute? hs hl)
      again := hagain }

theorem absolute_some_eq_error_iff {x : ConfigError} : c.absolute (some here.toPath) = .error x ↔
    ∃ d, c.directories.find? (·.bytes = []) = some d ∧ x = .unresolved d .emptyPath := by
  have hok (b : Path) : (∃ q, Path.resolve (some here.toPath) b = .ok q) ↔ b.bytes ≠ [] := by
    simp only [Path.resolve_some_eq_ok, ← Option.isSome_iff_exists, Option.isSome_iff_ne_none, ne_eq,
      Path.absolute?_eq_none_iff]
  simp only [absolute_eq_error_iff, hok, Path.resolve_some_eq_error, List.find?_eq_some_iff_append,
    decide_eq_true_eq, Bool.not_eq_true', decide_eq_false_iff_not]
  constructor
  · rintro ⟨before, d, after, hl, hbefore, hd, hx⟩
    exact ⟨d, ⟨hd, before, after, hl, hbefore⟩, hx⟩
  · rintro ⟨d, ⟨hd, before, after, hl, hbefore⟩, hx⟩
    exact ⟨before, d, after, hl, hbefore, hd, hx⟩

/-- **Spelling out fails only for an empty directory, and tells the first one. Else it changes nothing but the
spelling: a pass does the same with either configuration, and the directories of the tool are the same in the
directory in which it runs as here.** -/
theorem absolute_spellsOut (here : Place) (c : BuildConfig) :
    match c.directories.find? (·.bytes = []) with
    | some d => c.absolute (some here.toPath) = .error (.unresolved d .emptyPath)
    | none => ∃ c', c.absolute (some here.toPath) = .ok c' ∧ SpellsOut here c c' ∧
        (∀ (τ ε : Type) (env : Environment) (tools : Toolchain τ ε) (course : Course τ),
          course.files.pathOf? env.current = some here.toPath →
          (Pass.run env tools c).run course = (Pass.run env tools c').run course) ∧
        ∀ (fs : FileSystem) (p q : Place) (atEnd : Bool),
          fs.find p (Binding.ofConfig c').outputDir atEnd = fs.find q (Binding.ofConfig c').outputDir atEnd ∧
          fs.find p (Binding.ofConfig c').libDir atEnd = fs.find q (Binding.ofConfig c').libDir atEnd := by
  cases hd : c.directories.find? (·.bytes = []) with
  | some d => exact absolute_some_eq_error_iff.2 ⟨d, hd, rfl⟩
  | none =>
    cases hc : c.absolute (some here.toPath) with
    | error x =>
      obtain ⟨d, hd', -⟩ := absolute_some_eq_error_iff.1 hc
      rw [hd] at hd'
      cases hd'
    | ok c' =>
      have hspells := spellsOut_of_absolute hc
      refine ⟨c', rfl, hspells, ?_, ?_⟩
      · intro τ ε env tools course hcur
        rw [← hcur] at hc
        have hagain := hspells.again
        rw [← hcur] at hagain
        rw [Pass.run_of_absolute hc, Pass.run_of_absolute hagain]
      · intro fs p q atEnd
        have hlibrary : c'.libraryDirectory.isAbsolute = true :=
          Path.isAbsolute_of_absolute? (Or.inr rfl) hspells.library
        have houtput : c'.outputDir.isAbsolute = true := Path.isAbsolute_of_absolute? (Or.inr rfl) hspells.output
        exact ⟨FileSystem.find_of_isAbsolute houtput p q, FileSystem.find_of_isAbsolute hlibrary p q⟩

/-- A directory to start from, and one beside it. -/
def started : FileSystem :=
  ⟨[(.ofNames [.ofString "w"], .directory), (.ofNames [.ofString "peak"], .directory)], by decide⟩

def climbing : BuildConfig := { sourceDir := .ofString "../peak/.", outputDir := .ofString "//out/" }

def startedThere : Environment := { current := .ofNames [.ofString "w"], searchPath := [] }

def climbed : BuildConfig := { sourceDir := .ofString "/w/../peak", outputDir := .ofString "//out/" }

/-- A source directory next to the current one stays a neighbour, and so does the library directory in it. -/
theorem absolute_spellsOut_climbing :
    climbing.absolute (some (Place.ofNames [.ofString "w"]).toPath) = .ok climbed ∧
    SpellsOut (.ofNames [.ofString "w"]) climbing climbed ∧
    climbed.libraryDirectory = .ofString "/w/../peak/imports" ∧
    started.pathOf? (.ofNames [.ofString "w"]) = some (Place.ofNames [.ofString "w"]).toPath ∧
    (∀ anywhere, started.find anywhere climbed.sourceDir true = .ok (.ofNames [.ofString "peak"], .directory)) ∧
    ∀ (tools : Toolchain Unit Unit),
      (Pass.run startedThere tools climbing).run (.start started) =
        (Pass.run startedThere tools climbed).run (.start started) := by
  have hc : climbing.absolute (some (Place.ofNames [.ofString "w"]).toPath) = .ok climbed := by cbv
  have hcur : started.pathOf? (.ofNames [.ofString "w"]) = some (Place.ofNames [.ofString "w"]).toPath := by cbv
  have hlibrary : climbed.libraryDirectory = .ofString "/w/../peak/imports" := by decide
  obtain ⟨c', hc', hspells, hrun, -⟩ := absolute_spellsOut (.ofNames [.ofString "w"]) climbing
  obtain rfl := Except.ok.inj (hc.symm.trans hc')
  have hfind : started.find (.ofNames [.ofString "w"]) climbing.sourceDir true =
      .ok (.ofNames [.ofString "peak"], .directory) := by cbv
  refine ⟨hc, hspells, hlibrary, hcur, fun anywhere => ?_, fun tools => ?_⟩
  · exact (hspells.sourceSame started hcur (by decide) (by decide) (by decide) anywhere _).2 hfind
  · exact hrun Unit Unit startedThere tools (.start started) hcur

end BuildConfig

end GrammarBatch
