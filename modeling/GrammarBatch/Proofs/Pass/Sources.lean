import GrammarBatch.Proofs.Files.Missing
import GrammarBatch.Proofs.Pass.Frame
import GrammarBatch.Proofs.Pass.Order

/-!
# A pass without sources

The source directory is looked for after the output directory was made, and making one may make the other.

* `Pass.Sourceless`: there is no source directory, and nothing makes one;
* `Pass.Vain`, `Pass.vain_takes`, `Pass.vain_runs`: then each step, and so each run of steps, leads to a failure or
  to an end without sources, and hands nothing to the tool or to the host;
* **`Pass.run_without_sources`**: so does a pass;
* `Pass.run_makes_sources`: a pass may come upon a source directory that it made itself.
-/

namespace GrammarBatch

variable {τ ε : Type}

namespace Pass

/-- There is no source directory, and neither making the output directory nor making the tool ready makes one. -/
structure Sourceless (env : Environment) (tools : Toolchain τ ε) (fs : FileSystem) (c : BuildConfig) : Prop where
  missing : fs.isDirectory env.current c.sourceDir = false
  /-- If something is missing on the way to the source directory, not all of it is missing on the way to the
  output directory, too. -/
  apart : fs.lacks env.current c.sourceDir = [] ∨
    ¬ fs.lacks env.current c.sourceDir ⊆ fs.lacks env.current c.outputDir
  keptAway : ∀ fs', fs.makeDirectories env.current c.outputDir = (fs', .ok ()) →
    fs'.isDirectory env.current c.sourceDir = false →
    ((tools.prepare (.ofConfig c)).run (.start fs')).2.files.isDirectory env.current c.sourceDir = false

/-- The command that the configuration names makes no directory when it is made ready. -/
theorem sourceless_commandToolchain {env : Environment} {fs : FileSystem} {c : BuildConfig} (command : ToolCommand)
    (hmissing : fs.isDirectory env.current c.sourceDir = false)
    (hapart : fs.lacks env.current c.sourceDir = [] ∨
      ¬ fs.lacks env.current c.sourceDir ⊆ fs.lacks env.current c.outputDir) :
    Sourceless env (commandToolchain env command) fs c := by
  refine ⟨hmissing, hapart, fun fs' _ hno => ?_⟩
  cases hp : ((commandToolchain env command).prepare (.ofConfig c)).run (.start fs') with
  | mk result course =>
    rw [files_prepare hp]
    exact hno

variable {env : Environment} {tools : Toolchain τ ε} {c₀ : BuildConfig} {s s' : Stage ε} {fs₀ fs fs' : FileSystem}
  {a : Step} {steps : List Step}

/-- Until the source directory is looked for there is none, and the pass does not go on after that. -/
def Vain (env : Environment) (c₀ : BuildConfig) (fs₀ : FileSystem) : Stage ε → FileSystem → Prop
  | .begun c, fs => c = c₀ ∧ fs = fs₀
  | .resolved c, fs => c₀.absolute (fs₀.pathOf? env.current) = .ok c ∧ fs = fs₀
  | .outputMade c, fs => c₀.absolute (fs₀.pathOf? env.current) = .ok c ∧
    fs₀.makeDirectories env.current c.outputDir = (fs, .ok ()) ∧ fs.isDirectory env.current c.sourceDir = false
  | .toolReady c _, fs =>
    c₀.absolute (fs₀.pathOf? env.current) = .ok c ∧ fs.isDirectory env.current c.sourceDir = false
  | .ended x, _ => (∃ e, x = .error e) ∨
    ∃ c, c₀.absolute (fs₀.pathOf? env.current) = .ok c ∧ x = .ok (.noSources c.sourceDir)
  | _, _ => False

section Vain

variable (hno : ∀ c, c₀.absolute (fs₀.pathOf? env.current) = .ok c → Sourceless env tools fs₀ c)

include hno

theorem vain_takes (h : Takes env tools s fs a s' fs') (hs : Vain env c₀ fs₀ s fs) :
    Vain env c₀ fs₀ s' fs' ∧ a.batch? = none ∧ a.registered? = none := by
  cases h with
  | resolve hc =>
    obtain ⟨rfl, rfl⟩ := hs
    exact ⟨⟨hc, rfl⟩, rfl, rfl⟩
  | resolveFails | makeOutputFails | prepareFails => exact ⟨Or.inl ⟨_, rfl⟩, rfl, rfl⟩
  | makeOutput hm =>
    obtain ⟨hc, rfl⟩ := hs
    have hmissing := FileSystem.isDirectory_makeDirectories_of_lacks (BuildConfig.isAbsolute_sourceDir hc)
      (BuildConfig.isAbsolute_outputDir hc) (hno _ hc).missing (hno _ hc).apart
    rw [hm] at hmissing
    exact ⟨⟨hc, hm, hmissing⟩, rfl, rfl⟩
  | @prepare c _ _ _ hp =>
    obtain ⟨hc, hm, hmissing⟩ := hs
    have hmissing' := (hno c hc).keptAway fs hm hmissing
    rw [hp] at hmissing'
    exact ⟨⟨hc, hmissing'⟩, rfl, rfl⟩
  | inspect hd =>
    rw [hs.2] at hd
    cases hd
  | inspectNothing => exact ⟨Or.inr ⟨_, hs.1, rfl⟩, rfl, rfl⟩
  | _ => exact hs.elim

theorem vain_runs (h : Runs env tools s fs steps s' fs') (hs : Vain env c₀ fs₀ s fs) :
    Vain env c₀ fs₀ s' fs' ∧ steps.filterMap Step.batch? = [] ∧ steps.filterMap Step.registered? = [] := by
  induction h with
  | done => exact ⟨hs, rfl, rfl⟩
  | step h _ ih =>
    obtain ⟨hs', hbatch, hregistered⟩ := vain_takes hno h hs
    rw [List.filterMap_cons_none hbatch, List.filterMap_cons_none hregistered]
    exact ih hs'

end Vain

/-- **If there is no source directory and none is made, a pass fails or ends without sources. It hands nothing to
the tool and registers nothing.** -/
theorem run_without_sources (env : Environment) (tools : Toolchain τ ε) (c₀ : BuildConfig) (fs₀ : FileSystem)
    (hno : ∀ c, c₀.absolute (fs₀.pathOf? env.current) = .ok c → Sourceless env tools fs₀ c) :
    let pass := (run env tools c₀).run (.start fs₀)
    ((∃ e, pass.1 = .error e) ∨
      ∃ c, c₀.absolute (fs₀.pathOf? env.current) = .ok c ∧ pass.1 = .ok (.noSources c.sourceDir)) ∧
    pass.2.batches = [] ∧ pass.2.registered = [] := by
  intro pass
  rw [Course.registered_eq]
  exact vain_runs hno (runs_run env tools c₀ fs₀) ⟨rfl, rfl⟩

/-! ## Side by side, and one below the other -/

/-- A link to a directory in which nothing is. -/
def linkedFiles : FileSystem where
  entries := [(.ofNames [.ofString "work"], .link (.ofString "/real")), (.ofNames [.ofString "real"], .directory)]
  nodup := by decide

def siblingsConfig : BuildConfig :=
  { sourceDir := .ofString "/work/lib/src", outputDir := .ofString "/work/lib/./out/" }

def siblingsResolved : BuildConfig := { siblingsConfig with outputDir := .ofString "/work/lib/out/" }

theorem not_lacks_siblings_subset : ¬ linkedFiles.lacks .root siblingsResolved.sourceDir ⊆
    linkedFiles.lacks .root siblingsResolved.outputDir := by
  have hsource : linkedFiles.lacks .root siblingsResolved.sourceDir =
      [.ofNames [.ofString "lib", .ofString "real"],
        .ofNames [.ofString "src", .ofString "lib", .ofString "real"]] := by cbv
  have houtput : linkedFiles.lacks .root siblingsResolved.outputDir =
      [.ofNames [.ofString "lib", .ofString "real"],
        .ofNames [.ofString "out", .ofString "lib", .ofString "real"]] := by cbv
  rw [hsource, houtput]
  decide

/-- Directories that will be next to each other, behind a link. -/
theorem run_without_sources_siblings :
    linkedFiles.isDirectory .root siblingsResolved.sourceDir = false ∧
    ((run atRoot (toolThat id) siblingsConfig).run (.start linkedFiles)).1 =
      .ok (.noSources siblingsResolved.sourceDir) ∧
    ((run atRoot (toolThat id) siblingsConfig).run (.start linkedFiles)).2.batches = [] ∧
    ((run atRoot (toolThat id) siblingsConfig).run (.start linkedFiles)).2.registered = [] := by
  have hc : siblingsConfig.absolute (linkedFiles.pathOf? .root) = .ok siblingsResolved := by cbv
  have hmissing : linkedFiles.isDirectory .root siblingsResolved.sourceDir = false := by cbv
  have hno : ∀ c, siblingsConfig.absolute (linkedFiles.pathOf? .root) = .ok c →
      Sourceless atRoot (toolThat id) linkedFiles c := by
    intro c h
    rw [hc] at h
    obtain rfl := Except.ok.inj h
    exact ⟨hmissing, Or.inr not_lacks_siblings_subset, fun _ _ hd => hd⟩
  obtain ⟨-, hbatches, hregistered⟩ := run_without_sources atRoot (toolThat id) siblingsConfig linkedFiles hno
  have hm : linkedFiles.makeDirectories .root siblingsResolved.outputDir =
      ((linkedFiles.makeDirectories .root siblingsResolved.outputDir).1, .ok ()) := Prod.ext rfl (by cbv)
  have hd : (linkedFiles.makeDirectories .root siblingsResolved.outputDir).1.isDirectory .root
      siblingsResolved.sourceDir = false := by cbv
  have hruns : Runs atRoot (toolThat id) (.begun siblingsConfig) linkedFiles _
      (.ended (.ok (.noSources siblingsResolved.sourceDir))) _ :=
    .step (.resolve hc) (.step (.makeOutput hm) (.step (.prepare rfl) (.step (.inspectNothing hd) .done)))
  exact ⟨hmissing, (run_of_runs hruns).1, hbatches, hregistered⟩

/-- The output directory is to be in the source directory. -/
def nestedConfig : BuildConfig := { sourceDir := .ofString "/sources", outputDir := .ofString "/sources/made" }

def nestedFiles : FileSystem :=
  (FileSystem.insert ∅ (.ofNames [.ofString "sources"]) .directory).insert
    (.ofNames [.ofString "made", .ofString "sources"]) .directory

theorem runs_nested : Runs atRoot (toolThat id) (.begun nestedConfig) ∅ (idleOrder nestedConfig)
    (.ended (.ok .noGrammars)) nestedFiles := by
  have hc : nestedConfig.absolute (FileSystem.pathOf? ∅ .root) = .ok nestedConfig := by cbv
  have hm : FileSystem.makeDirectories ∅ .root nestedConfig.outputDir = (nestedFiles, .ok ()) := by cbv
  have hfind : nestedFiles.find .root (.ofString "/sources") true =
      .ok (.ofNames [.ofString "sources"], .directory) := by cbv
  have hdir : nestedFiles.isDirectory .root (.ofString "/sources") = true := by rw [FileSystem.isDirectory, hfind]
  have hsrc : nestedFiles.children (.ofNames [.ofString "sources"]) = [(.ofString "made", .directory)] := by decide
  have hgen : nestedFiles.children ((Place.ofNames [.ofString "sources"]).child (.ofString "made")) = [] := by decide
  have hwalk : nestedFiles.walk .root (.ofString "/sources") = .ok [] := by
    have hvisit : FileSystem.visit nestedFiles .root [] ⟨.ofNames [.ofString "sources"], .ofString "/sources"⟩ []
        (.ofString "made", .directory) = .ok [] := by
      rw [FileSystem.visit, FileSystem.walkFrom_eq, if_neg (by decide), hgen]
      rfl
    rw [FileSystem.walk_of_directory hfind, FileSystem.walkFrom_eq, if_neg (by decide), hsrc, List.mapM_cons, hvisit]
    rfl
  have hscan : (Filter.ofConfig nestedConfig).scan nestedFiles .root (.ofString "/sources") = .ok [] := by
    have hnone : (Filter.ofConfig nestedConfig).wanted [] = [] := rfl
    rw [Filter.scan_of_walk hwalk, hnone, List.mergeSort_nil]
  exact .step (.resolve hc) <| .step (.makeOutput hm) <| .step (.prepare rfl) <|
    .step (.inspect hdir) <| .step (.discover hscan) <| .step (.registerNothing rfl) .done

/-- A directory with a grammar. -/
def oneGrammar : FileSystem where
  entries :=
    [(.ofNames [.ofString "real"], .directory),
      (.ofNames [.ofString "Calc.g", .ofString "real"], .file ⟨[], false, none⟩)]
  nodup := by decide

/-- The path of the source directory climbs out of the output directory. -/
def climbsOutConfig : BuildConfig where
  sourceDir := .ofString "/gen/../real"
  outputDir := .ofString "/gen"
  includes := .ofList ["Calc.g"]
  defaultExcludes := false

theorem sourceDir_climbsOut : climbsOutConfig.sourceDir = .ofString "/gen/../real" := rfl

theorem outputDir_climbsOut : climbsOutConfig.outputDir = .ofString "/gen" := rfl

theorem runs_climbsOut : Runs atRoot (toolThat id) (.begun climbsOutConfig) oneGrammar
    (order climbsOutConfig ⟨.ofString "/gen/../real", true, [⟨[], .ofString "Calc.g"⟩]⟩)
    (.ended (.ok (.compiled [⟨[], .ofString "Calc.g"⟩] 0)))
    (oneGrammar.insert (.ofNames [.ofString "gen"]) .directory) := by
  have hsource : Path.resolve (oneGrammar.pathOf? .root) climbsOutConfig.sourceDir = .ok climbsOutConfig.sourceDir := by
    rw [sourceDir_climbsOut]
    cbv
  have houtput : Path.resolve (oneGrammar.pathOf? .root) climbsOutConfig.outputDir = .ok climbsOutConfig.outputDir := by
    rw [outputDir_climbsOut]
    cbv
  have hc : climbsOutConfig.absolute (oneGrammar.pathOf? .root) = .ok climbsOutConfig := by
    rw [BuildConfig.absolute, hsource, houtput]
    rfl
  have hm : oneGrammar.makeDirectories .root climbsOutConfig.outputDir =
      (oneGrammar.insert (.ofNames [.ofString "gen"]) .directory, .ok ()) := by
    rw [outputDir_climbsOut]
    cbv
  have hfind : (oneGrammar.insert (.ofNames [.ofString "gen"]) .directory).find .root (.ofString "/gen/../real")
      true = .ok (.ofNames [.ofString "real"], .directory) := by cbv
  have hdir : (oneGrammar.insert (.ofNames [.ofString "gen"]) .directory).isDirectory .root
      (.ofString "/gen/../real") = true := by rw [FileSystem.isDirectory, hfind]
  have hreal : (oneGrammar.insert (.ofNames [.ofString "gen"]) .directory).children (.ofNames [.ofString "real"]) =
      [(.ofString "Calc.g", .file ⟨[], false, none⟩)] := by decide
  have hwalk : (oneGrammar.insert (.ofNames [.ofString "gen"]) .directory).walk .root (.ofString "/gen/../real") =
      .ok [[.ofString "Calc.g"]] := by
    rw [FileSystem.walk_of_directory hfind, FileSystem.walkFrom_eq, if_neg (by decide), hreal]
    rfl
  have hwanted : (Filter.ofConfig climbsOutConfig).wanted [[.ofString "Calc.g"]] = [⟨[], .ofString "Calc.g"⟩] := by
    decide +kernel
  have hscan : (Filter.ofConfig climbsOutConfig).scan (oneGrammar.insert (.ofNames [.ofString "gen"]) .directory)
      .root (.ofString "/gen/../real") = .ok [⟨[], .ofString "Calc.g"⟩] := by
    rw [Filter.scan_of_walk hwalk, hwanted, List.mergeSort_singleton]
  exact .step (.resolve hc) <| .step (.makeOutput hm) <| .step (.prepare rfl) <| .step (.inspect hdir) <|
    .step (.discover hscan) <| .step (.compile (List.cons_ne_nil _ _) rfl rfl) <| .step .register .done

/-- A source directory that is missing is there when the output directory is made in it, and also when its path
climbs out of the output directory. -/
theorem run_makes_sources :
    FileSystem.isDirectory ∅ .root nestedConfig.sourceDir = false ∧
    ((run atRoot (toolThat id) nestedConfig).run (.start ∅)).1 = .ok .noGrammars ∧
    ((run atRoot (toolThat id) nestedConfig).run (.start ∅)).2.registered = [.ofString "/sources/made"] ∧
    oneGrammar.isDirectory .root climbsOutConfig.sourceDir = false ∧
    ((run atRoot (toolThat id) climbsOutConfig).run (.start oneGrammar)).1 =
      .ok (.compiled [⟨[], .ofString "Calc.g"⟩] 0) ∧
    ((run atRoot (toolThat id) climbsOutConfig).run (.start oneGrammar)).2.batches =
      [⟨.ofString "/gen/../real", true, [⟨[], .ofString "Calc.g"⟩]⟩] := by
  obtain ⟨hx, hs, -⟩ := run_of_runs runs_nested
  obtain ⟨hx', hs', -⟩ := run_of_runs runs_climbsOut
  rw [Course.registered_eq, Course.batches, hs, hs', sourceDir_climbsOut]
  exact ⟨by cbv, hx, rfl, by cbv, hx', rfl⟩

end Pass

end GrammarBatch
