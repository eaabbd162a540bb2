import GrammarBatch.Config.Absolute
import GrammarBatch.Files.Basic
import GrammarBatch.Proofs.Except

/-!
# Directories spelled out

* `Path.isAbsolute_of_absolute?`, `Path.isAbsolute_of_resolve`: what is spelled out starts at the root;
* `BuildConfig.absolute_eq_ok`: a configuration is spelled out one directory after another;
* `BuildConfig.isAbsolute_outputDir`: then its output directory starts at the root;
* `BuildConfig.absolute_eq_error_iff`: it fails with the first directory that cannot be spelled out;
* `BuildConfig.absolute_of_isAbsolute`: paths from the root are spelled out alike in every directory.
-/

namespace GrammarBatch

namespace Path

variable {p q : Path} {current : Option Path}

theorem isAbsolute_join (hp : p.isAbsolute = true) (q : Path) : (p.join q).isAbsolute = true := by
  unfold join
  split
  · assumption
  obtain ⟨bytes⟩ := p
  cases bytes with
  | nil => cases hp
  | cons b bytes =>
    split
    · exact hp
    · exact hp

theorem isAbsolute_of_absolute? {current : Path} (h : p.isAbsolute = true ∨ current.isAbsolute = true)
    (hq : p.absolute? current = some q) : q.isAbsolute = true := by
  unfold absolute? at hq
  split at hq
  · cases hq
  dsimp only at hq
  have hstart : Path.isAbsolute (if p.hasDoubleRoot = true then ⟨[slash, slash]⟩
      else if p.isAbsolute = true then ⟨[slash]⟩ else current) = true := by
    split
    · rfl
    split
    · rfl
    · rename_i hp
      exact h.resolve_left hp
  generalize (if p.hasDoubleRoot = true then (⟨[slash, slash]⟩ : Path)
      else if p.isAbsolute = true then ⟨[slash]⟩ else current) = start at hq hstart
  have hspelled (parts : List Component) : Path.isAbsolute (if parts = [] then start
      else start.join (ofPieces (parts.map Component.bytes))) = true := by
    split
    · exact hstart
    · exact isAbsolute_join hstart _
  have hq := Option.some.inj hq
  subst hq
  split
  · exact isAbsolute_join (hspelled _) _
  · exact hspelled _

theorem isAbsolute_of_resolve (hcur : ∀ d ∈ current, d.isAbsolute = true) (h : resolve current p = .ok q) :
    q.isAbsolute = true := by
  unfold resolve at h
  split at h
  · cases h
  rename_i q' hq
  split at h
  · cases h
  rename_i hrel
  cases h
  refine isAbsolute_of_absolute? ?_ hq
  cases current with
  | none => exact Or.inl (by simpa using hrel)
  | some d => exact Or.inr (hcur d rfl)

theorem exists_cause_of_resolve {here : Option Path} {x : ConfigError}
    (h : resolve here p = .error x) : ∃ cause, x = .unresolved p cause := by
  unfold resolve at h
  split at h
  · cases h
    exact ⟨_, rfl⟩
  · split at h
    · cases h
      exact ⟨_, rfl⟩
    · cases h

theorem absolute?_of_isAbsolute (h : p.isAbsolute = true) (here there : Path) :
    p.absolute? here = p.absolute? there := by
  unfold absolute?
  simp only [h, if_true]

theorem resolve_of_isAbsolute (h : p.isAbsolute = true) (here there : Option Path) :
    resolve here p = resolve there p := by
  unfold resolve
  rw [absolute?_of_isAbsolute h (here.getD ⟨[]⟩) (there.getD ⟨[]⟩)]
  simp only [h, Bool.true_eq_false, and_false, if_false]

end Path

theorem FileSystem.eq_toPath_of_pathOf? {fs : FileSystem} {place : Place} {d : Path}
    (h : fs.pathOf? place = some d) : d = place.toPath := by
  unfold pathOf? at h
  split at h
  · exact (Option.some.inj h).symm
  · cases h

theorem FileSystem.isWay_of_pathOf? {fs : FileSystem} {place : Place} {d : Path}
    (h : fs.pathOf? place = some d) : fs.isWay place.names = true := by
  unfold pathOf? at h
  split at h
  · assumption
  · cases h

namespace BuildConfig

variable {c c' : BuildConfig} {current : Option Path}

/-- The directories are spelled out one after another, and nothing else changes. -/
theorem absolute_eq_ok (h : c.absolute current = .ok c') : ∃ source output lib,
    Path.resolve current c.sourceDir = .ok source ∧ Path.resolve current c.outputDir = .ok output ∧
      c.libDir.mapM (Path.resolve current) = .ok lib ∧
        c' = { c with sourceDir := source, outputDir := output, libDir := lib } := by
  unfold absolute at h
  obtain ⟨source, hs, h⟩ := bind_eq_ok.1 h
  obtain ⟨output, ho, h⟩ := bind_eq_ok.1 h
  obtain ⟨lib, hl, h⟩ := bind_eq_ok.1 h
  cases h
  exact ⟨source, output, lib, hs, ho, hl, rfl⟩

section SpelledOut

variable {fs : FileSystem} {place : Place}

theorem isAbsolute_of_resolve_pathOf? {p q : Path} (h : Path.resolve (fs.pathOf? place) p = .ok q) :
    q.isAbsolute = true := by
  refine Path.isAbsolute_of_resolve (fun d hd => ?_) h
  rw [FileSystem.eq_toPath_of_pathOf? hd]
  rfl

theorem isAbsolute_sourceDir (h : c.absolute (fs.pathOf? place) = .ok c') : c'.sourceDir.isAbsolute = true := by
  obtain ⟨source, output, lib, hs, -, -, rfl⟩ := absolute_eq_ok h
  exact isAbsolute_of_resolve_pathOf? hs

theorem isAbsolute_outputDir (h : c.absolute (fs.pathOf? place) = .ok c') : c'.outputDir.isAbsolute = true := by
  obtain ⟨source, output, lib, -, ho, -, rfl⟩ := absolute_eq_ok h
  exact isAbsolute_of_resolve_pathOf? ho

end SpelledOut

/-- The directories that are configured, in the order in which they are spelled out. -/
def directories (c : BuildConfig) : List Path := [c.sourceDir, c.outputDir] ++ c.libDir.toList

theorem directories_absolute (current : Option Path) (c : BuildConfig) :
    (c.absolute current).map directories = c.directories.mapM (Path.resolve current) := by
  unfold absolute directories
  cases hs : Path.resolve current c.sourceDir with
  | error x => simp [hs, List.mapM_cons, bind, Except.bind, Except.map]
  | ok source =>
    cases ho : Path.resolve current c.outputDir with
    | error x => simp [hs, ho, List.mapM_cons, bind, Except.bind, Except.map]
    | ok output =>
      cases hl : c.libDir with
      | none => simp [hs, ho, List.mapM_cons, bind, Except.bind, Except.map, pure, Except.pure]
      | some d =>
        cases hd : Path.resolve current d <;>
          simp [hs, ho, hd, List.mapM_cons, bind, Except.bind, Functor.map, Except.map, pure, Except.pure]

/-- A configuration cannot be spelled out because of its first directory that cannot. -/
theorem absolute_eq_error_iff {x : ConfigError} : c.absolute current = .error x ↔
    ∃ before d after, c.directories = before ++ d :: after ∧
      (∀ b ∈ before, ∃ q, Path.resolve current b = .ok q) ∧ Path.resolve current d = .error x := by
  rw [← mapM_eq_error_iff, ← directories_absolute, map_eq_error]

/-- Where the current directory has no path, only paths from the root are spelled out. -/
theorem isAbsolute_of_absolute_none (h : c.absolute none = .ok c') :
    ∀ d ∈ c.directories, d.isAbsolute = true := by
  intro d hd
  have hall := directories_absolute none c
  rw [h] at hall
  obtain ⟨q, hq⟩ := exists_of_mapM_eq_ok hall.symm hd
  unfold Path.resolve at hq
  split at hq
  · cases hq
  split at hq
  · cases hq
  · rename_i hrel
    simpa using hrel

theorem absolute_of_isAbsolute (h : ∀ d ∈ c.directories, d.isAbsolute = true) (here there : Option Path) :
    c.absolute here = c.absolute there := by
  have hresolve : ∀ d ∈ c.directories, Path.resolve here d = Path.resolve there d :=
    fun d hd => Path.resolve_of_isAbsolute (h d hd) here there
  have hlib : c.libDir.mapM (Path.resolve here) = c.libDir.mapM (Path.resolve there) := by
    cases hl : c.libDir with
    | none => rfl
    | some d => rw [Option.mapM_some, Option.mapM_some, hresolve d (by simp [directories, hl])]
  rw [absolute, absolute, hresolve c.sourceDir (by simp [directories]),
    hresolve c.outputDir (by simp [directories]), hlib]

end BuildConfig

end GrammarBatch
