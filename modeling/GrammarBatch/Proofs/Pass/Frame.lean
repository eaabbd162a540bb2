import GrammarBatch.Proofs.Config.Absolute
import GrammarBatch.Proofs.Program.Preview

/-!
# What a pass leaves behind

A pass makes the output directory. With a tool that leaves the files alone, nothing else happens to them.

* `Toolchain.Spares`, `Toolchain.AnswersAs`: a tool that leaves the files alone, and two that answer alike;
* `Pass.Takes.files_eq`, `Pass.Takes.alike`: what a step does to the files, and with a tool that answers alike;
* `Pass.files_run`: the files after a pass, however it ends;
* `Pass.run_again`: a pass that went well goes the same way again;
* **`Pass.run_only_makes_output`**: both together, for listing and collecting grammars, too.
-/

namespace GrammarBatch

variable {τ τ' ε ε' : Type}

/-- The tool leaves all files as they are. -/
structure Toolchain.Spares (tools : Toolchain τ ε) : Prop where
  prepare (b : Binding) (fs : FileSystem) : ((tools.prepare b).run (.start fs)).2.files = fs
  compile (engine : ε) (batch : Batch) (fs : FileSystem) :
    ((tools.compile engine batch).run (.start fs)).2.files = fs

/-- With the same files the second tool answers as the first one does; `same` says which engines do. -/
structure Toolchain.AnswersAs (tools : Toolchain τ ε) (tools' : Toolchain τ' ε') (same : ε → ε' → Prop) :
    Prop where
  prepare (b : Binding) (fs : FileSystem) :
    match ((tools.prepare b).run (.start fs)).1, ((tools'.prepare b).run (.start fs)).1 with
    | .ok engine, .ok engine' => same engine engine'
    | .error x, .error x' => x = x'
    | _, _ => False
  compile {engine : ε} {engine' : ε'} (h : same engine engine') (batch : Batch) (fs : FileSystem) :
    ((tools.compile engine batch).run (.start fs)).1 = ((tools'.compile engine' batch).run (.start fs)).1

namespace Toolchain.AnswersAs

variable {tools : Toolchain τ ε} {tools' : Toolchain τ' ε'} {same : ε → ε' → Prop} {b : Binding}
  {fs : FileSystem} {course : Course τ}

theorem exists_ready {engine : ε} (h : tools.AnswersAs tools' same)
    (hp : (tools.prepare b).run (.start fs) = (.ok engine, course)) :
    ∃ engine' course', (tools'.prepare b).run (.start fs) = (.ok engine', course') ∧ same engine engine' := by
  have h := h.prepare b fs
  rw [hp] at h
  cases hp' : (tools'.prepare b).run (.start fs) with
  | mk x course' =>
    rw [hp'] at h
    cases x with
    | ok engine' => exact ⟨engine', course', rfl, h⟩
    | error x => exact h.elim

theorem exists_refused {x : ToolError} (h : tools.AnswersAs tools' same)
    (hp : (tools.prepare b).run (.start fs) = (.error x, course)) :
    ∃ course', (tools'.prepare b).run (.start fs) = (.error x, course') := by
  have h := h.prepare b fs
  rw [hp] at h
  cases hp' : (tools'.prepare b).run (.start fs) with
  | mk x' course' =>
    rw [hp'] at h
    cases x' with
    | ok engine' => exact h.elim
    | error x' => exact ⟨course', by rw [show x = x' from h]⟩

theorem exists_compiled {engine : ε} {engine' : ε'} {batch : Batch} {r : Except ToolError Tally}
    (h : tools.AnswersAs tools' same) (he : same engine engine')
    (hc : (tools.compile engine batch).run (.start fs) = (r, course)) :
    ∃ course', (tools'.compile engine' batch).run (.start fs) = (r, course') := by
  have h := h.compile he batch fs
  rw [hc] at h
  exact ⟨_, Prod.ext h.symm rfl⟩

end Toolchain.AnswersAs

theorem BuildConfig.absolute_extends {fs fs' : FileSystem} {place : Place} {c c' : BuildConfig}
    (h : fs'.Extends fs) (hc : c.absolute (fs.pathOf? place) = .ok c') :
    c.absolute (fs'.pathOf? place) = .ok c' := by
  unfold FileSystem.pathOf? at hc ⊢
  by_cases hw : fs.isWay place.names = true
  · rw [if_pos hw] at hc
    rw [if_pos (FileSystem.isWay_extends h hw), hc]
  · rw [if_neg hw] at hc
    rw [← hc]
    exact absolute_of_isAbsolute (isAbsolute_of_absolute_none hc) _ _

namespace Pass

variable {env : Environment} {tools : Toolchain τ ε} {tools' : Toolchain τ' ε'} {same : ε → ε' → Prop}
  {s s' : Stage ε} {t : Stage ε'} {fs fs' : FileSystem} {a : Step} {steps : List Step} {c : BuildConfig}
  {x : Except BuildError Outcome}

/-! ## Once there is an output directory -/

/-- Two stages that are the same but for the engine, once there is an output directory. -/
inductive Stage.Alike (same : ε → ε' → Prop) : Stage ε → Stage ε' → Prop where
  | outputMade (c : BuildConfig) : Alike same (.outputMade c) (.outputMade c)
  | toolReady (c : BuildConfig) {engine : ε} {engine' : ε'} (h : same engine engine') :
    Alike same (.toolReady c engine) (.toolReady c engine')
  | sourceFound (c : BuildConfig) {engine : ε} {engine' : ε'} (h : same engine engine') :
    Alike same (.sourceFound c engine) (.sourceFound c engine')
  | gathered (c : BuildConfig) (batch : Batch) {engine : ε} {engine' : ε'} (h : same engine engine') :
    Alike same (.gathered c engine batch) (.gathered c engine' batch)
  | compiled (c : BuildConfig) (batch : Batch) (warnings : Nat) :
    Alike same (.compiled c batch warnings) (.compiled c batch warnings)
  | ended (r : Except BuildError Outcome) : Alike same (.ended r) (.ended r)

/-- Whether the output directory is there, and only the tool could change files. -/
def Stage.HasOutput : Stage ε → Prop
  | .begun _ | .resolved _ => False
  | _ => True

theorem Takes.files_eq (hspares : tools.Spares) (h : Takes env tools s fs a s' fs') (hs : s.HasOutput) :
    s'.HasOutput ∧ fs' = fs := by
  have hprepare (b : Binding) := hspares.prepare b fs
  have hcompile (engine : ε) (batch : Batch) := hspares.compile engine batch fs
  cases h with
  | resolve | resolveFails | makeOutput | makeOutputFails => exact hs.elim
  | prepare h | prepareFails h => exact ⟨trivial, by rw [← hprepare, h]⟩
  | compile hb h ht | compileFails hb h | compileFindsErrors hb h ht => exact ⟨trivial, by rw [← hcompile, h]⟩
  | _ => exact ⟨trivial, rfl⟩

theorem Runs.files_eq (hspares : tools.Spares) (h : Runs env tools s fs steps s' fs') (hs : s.HasOutput) :
    fs' = fs := by
  induction h with
  | done => rfl
  | step h _ ih =>
    obtain ⟨hs', rfl⟩ := h.files_eq hspares hs
    exact ih hs'

/-- A tool that answers alike leads a pass one step on in the same way. -/
theorem Takes.alike (hsame : tools.AnswersAs tools' same) (hst : Stage.Alike same s t)
    (h : Takes env tools s fs a s' fs') :
    ∃ t' fs'', Takes env tools' t fs a t' fs'' ∧ Stage.Alike same s' t' := by
  cases hst with
  | outputMade c =>
    cases h with
    | prepare h =>
      obtain ⟨engine', course', h', he⟩ := hsame.exists_ready h
      exact ⟨_, _, .prepare h', .toolReady c he⟩
    | prepareFails h =>
      obtain ⟨course', h'⟩ := hsame.exists_refused h
      exact ⟨_, _, .prepareFails h', .ended _⟩
  | toolReady c he =>
    cases h with
    | inspect h => exact ⟨_, _, .inspect h, .sourceFound c he⟩
    | inspectNothing h => exact ⟨_, _, .inspectNothing h, .ended _⟩
  | sourceFound c he =>
    cases h with
    | discover h => exact ⟨_, _, .discover h, .gathered c _ he⟩
    | discoverFails h => exact ⟨_, _, .discoverFails h, .ended _⟩
  | gathered c batch he =>
    cases h with
    | compile hb h ht =>
      obtain ⟨course', h'⟩ := hsame.exists_compiled he h
      exact ⟨_, _, .compile hb h' ht, .compiled c batch _⟩
    | compileFails hb h =>
      obtain ⟨course', h'⟩ := hsame.exists_compiled he h
      exact ⟨_, _, .compileFails hb h', .ended _⟩
    | compileFindsErrors hb h ht =>
      obtain ⟨course', h'⟩ := hsame.exists_compiled he h
      exact ⟨_, _, .compileFindsErrors hb h' ht, .ended _⟩
    | registerNothing hb => exact ⟨_, _, .registerNothing hb, .ended _⟩
  | compiled c batch warnings =>
    cases h with
    | register => exact ⟨_, _, .register, .ended _⟩
  | ended r => exact absurd h not_takes_ended

theorem Stage.Alike.hasOutput (h : Stage.Alike same s t) : s.HasOutput ∧ t.HasOutput := by
  cases h <;> exact ⟨trivial, trivial⟩

theorem Runs.alike (hspares : tools.Spares) (hspares' : tools'.Spares) (hsame : tools.AnswersAs tools' same)
    (hst : Stage.Alike same s t) (h : Runs env tools s fs steps (.ended x) fs') :
    Runs env tools' t fs steps (.ended x) fs' := by
  generalize he : Stage.ended x = e at h
  induction h generalizing t with
  | done =>
    subst he
    cases hst with
    | ended r => exact .done
  | step h _ ih =>
    obtain ⟨t', fs'', h', hst'⟩ := h.alike hsame hst
    obtain ⟨-, rfl⟩ := h.files_eq hspares hst.hasOutput.1
    obtain ⟨-, rfl⟩ := h'.files_eq hspares' hst.hasOutput.2
    exact .step h' (ih hst' he)

/-! ## From the beginning -/

/-- A pass fails at once, or when it makes the output directory, or goes on from there. -/
theorem Runs.cases_begun (h : Runs env tools (.begun c) fs steps (.ended x) fs') :
    (∃ e, c.absolute (fs.pathOf? env.current) = .error e ∧ x = .error (.config e) ∧ fs' = fs) ∨
    ∃ c', c.absolute (fs.pathOf? env.current) = .ok c' ∧
      ((∃ e, fs.makeDirectories env.current c'.outputDir = (fs', .error e) ∧
        x = .error (.outputDir c'.outputDir e)) ∨
      ∃ made rest, fs.makeDirectories env.current c'.outputDir = (made, .ok ()) ∧
        steps = .resolve :: .makeOutput c'.outputDir :: rest ∧
        Runs env tools (.outputMade c') made rest (.ended x) fs') := by
  cases h with
  | step h hr =>
    cases h with
    | resolveFails he =>
      cases hr with
      | done => exact Or.inl ⟨_, he, rfl, rfl⟩
      | step h _ => exact absurd h not_takes_ended
    | resolve hc =>
      refine Or.inr ⟨_, hc, ?_⟩
      cases hr with
      | step h hr =>
        cases h with
        | makeOutput hm => exact Or.inr ⟨_, _, hm, rfl, hr⟩
        | makeOutputFails hm =>
          cases hr with
          | done => exact Or.inl ⟨_, hm, rfl⟩
          | step h _ => exact absurd h not_takes_ended

/-- **However a pass ends, it has done to the files what making the output directory does to them.** -/
theorem files_run (hspares : tools.Spares) (env : Environment) (c : BuildConfig) (fs : FileSystem) :
    ((run env tools c).run (.start fs)).2.files =
      match c.absolute (fs.pathOf? env.current) with
      | .error _ => fs
      | .ok c' => (fs.makeDirectories env.current c'.outputDir).1 := by
  rcases (runs_run env tools c fs).cases_begun with
    ⟨e, hc, -, hfs⟩ | ⟨c', hc, ⟨e, hm, -⟩ | ⟨made, rest, hm, -, hr⟩⟩
  · rw [hc, hfs]
  · rw [hc]
    dsimp only
    rw [hm]
  · rw [hc, hr.files_eq hspares trivial]
    dsimp only
    rw [hm]

/-- **A pass that went well goes the same way again.** -/
theorem run_again (hspares : tools.Spares) (hspares' : tools'.Spares) (hsame : tools.AnswersAs tools' same)
    {o : Outcome} (h : Runs env tools (.begun c) fs steps (.ended (.ok o)) fs') :
    Runs env tools' (.begun c) fs' steps (.ended (.ok o)) fs' := by
  rcases h.cases_begun with ⟨e, -, hx, -⟩ | ⟨c', hc, ⟨e, -, hx⟩ | ⟨made, rest, hm, rfl, hr⟩⟩
  · cases hx
  · cases hx
  · obtain rfl := hr.files_eq hspares trivial
    have habs := BuildConfig.isAbsolute_outputDir hc
    have hext : fs'.Extends fs := by
      have h := FileSystem.extends_makeDirectories fs env.current habs
      rwa [hm] at h
    have hthere := FileSystem.makeDirectories_of_isDirectory (FileSystem.isDirectory_makeDirectories habs hm)
    exact .step (.resolve (BuildConfig.absolute_extends hext hc))
      (.step (.makeOutput hthere) (hr.alike hspares hspares' hsame (.outputMade c')))

end Pass

theorem Program.files_scan (env : Environment) (limit : Log.Limit) (c : BuildConfig) (asJson : Bool)
    (fs : FileSystem) : (scan env limit c asJson fs).course.files = fs := by
  unfold scan
  split
  · rfl
  split
  · rfl
  · rfl

theorem Program.files_run_scan {env : Environment} {fs : FileSystem} {argv : List Bytes}
    {i : CommandLine.Invocation} {config : Option Path} {o : Overrides} {asJson : Bool}
    (h : CommandLine.Invocation.ofArguments argv = .ok i) (htask : i.task = .scan config o asJson) :
    (run env argv fs).course.files = fs := by
  rw [run_eq_perform h, perform, htask]
  dsimp only
  split
  · rfl
  · exact files_scan _ _ _ _ _

namespace Pass

variable {tools : Toolchain τ ε} {tools' : Toolchain τ' ε'} {same : ε → ε' → Prop}

/-- **With a tool that leaves the files alone, a pass keeps whatever there is, however it ends, and all that is
new is directories that the output directory's path or a path around it leads to. A pass that went well comes to
the same again, with the same batch, and then nothing is new. Gathering and listing grammars changes nothing.** -/
theorem run_only_makes_output (hspares : tools.Spares) (hspares' : tools'.Spares)
    (hsame : tools.AnswersAs tools' same) (env : Environment) (c : BuildConfig) (fs : FileSystem) :
    let pass := (run env tools c).run (.start fs)
    pass.2.files.Extends fs ∧
    (∀ p e, fs.get? p = none → pass.2.files.get? p = some e → e = .directory ∧ ∃ c' outer,
      c.absolute (fs.pathOf? env.current) = .ok c' ∧ c'.outputDir.Outward outer ∧
        pass.2.files.find env.current outer true = .ok (p, .directory)) ∧
    (∀ x, c.absolute (fs.pathOf? env.current) = .error x → pass.2.files = fs) ∧
    (∀ o, pass.1 = .ok o →
      let again := (run env tools' c).run (.start pass.2.files)
      again.1 = .ok o ∧ again.2.steps = pass.2.steps ∧ again.2.batches = pass.2.batches ∧
        again.2.files = pass.2.files) ∧
    (∀ course : Course τ, ((collectBatch env c).run course).2.files = course.files) ∧
    ∀ argv i config o asJson, CommandLine.Invocation.ofArguments argv = .ok i →
      i.task = .scan config o asJson → (Program.run env argv fs).course.files = fs := by
  intro pass
  have hfiles := files_run hspares env c fs
  have hfail (x : ConfigError) (hc : c.absolute (fs.pathOf? env.current) = .error x) : pass.2.files = fs := by
    rwa [hc] at hfiles
  have hmake (c' : BuildConfig) (hc : c.absolute (fs.pathOf? env.current) = .ok c') :
      pass.2.files.Extends fs ∧ pass.2.files.AddsOnly fs env.current c'.outputDir := by
    have habs := BuildConfig.isAbsolute_outputDir hc
    rw [hc] at hfiles
    rw [show pass.2.files = _ from hfiles]
    exact ⟨FileSystem.extends_makeDirectories fs env.current habs,
      FileSystem.addsOnly_makeDirectories fs env.current habs⟩
  refine ⟨?_, fun p e hnone he => ?_, hfail, fun o ho => ?_, fun course => ?_, ?_⟩
  · cases hc : c.absolute (fs.pathOf? env.current) with
    | error x =>
      rw [hfail x hc]
      exact .refl fs
    | ok c' => exact (hmake c' hc).1
  · cases hc : c.absolute (fs.pathOf? env.current) with
    | error x =>
      rw [hfail x hc, hnone] at he
      cases he
    | ok c' =>
      obtain ⟨hdir, outer, houter, hf⟩ := (hmake c' hc).2 p e hnone he
      exact ⟨hdir, c', outer, rfl, houter, hf⟩
  · have hruns := runs_run env tools c fs
    rw [show ((run env tools c).run (.start fs)).1 = _ from ho] at hruns
    obtain ⟨hx, hsteps, hagain⟩ := run_of_runs (run_again hspares hspares' hsame hruns)
    exact ⟨hx, hsteps, congrArg (List.filterMap Step.batch?) hsteps, hagain⟩
  · obtain ⟨course', hrun, hfs, -⟩ := exists_run_collectBatch env c course
    rw [hrun]
    exact hfs
  · intro argv i config o asJson h htask
    exact Program.files_run_scan h htask

/-- A tool that finds nothing wrong, and says nothing. -/
def quietTools : Toolchain Empty Unit where
  prepare _ := pure (.ok ())
  compile _ _ := pure (.ok ⟨0, 0⟩)

/-- A tool that finds nothing wrong, and says so. -/
def chattyTools : Toolchain Nat Bool where
  prepare _ := do
    Job.log .info "ready"
    return .ok true
  compile _ batch := do
    Job.emit (.tool batch.grammars.length)
    return .ok ⟨0, 0⟩

/-- An output directory whose path climbs out of another one. -/
def climbingConfig : BuildConfig where
  sourceDir := .ofString "in"
  outputDir := .ofString "gen/../java/."

def climbedConfig : BuildConfig :=
  { climbingConfig with sourceDir := .ofString "/in", outputDir := .ofString "/gen/../java" }

def climbedFiles : FileSystem :=
  (FileSystem.insert ∅ (.ofNames [.ofString "gen"]) .directory).insert (.ofNames [.ofString "java"]) .directory

/-- The directory that the path climbs out of is made, too, and both stay as they are when the pass goes again. -/
theorem run_only_makes_output_climbing :
    let env : Environment := { current := .root, searchPath := [] }
    let pass := (run env quietTools climbingConfig).run (.start ∅)
    quietTools.Spares ∧ chattyTools.Spares ∧ quietTools.AnswersAs chattyTools (fun _ _ => True) ∧
    pass.1 = .ok (.noSources (.ofString "/in")) ∧ pass.2.files = climbedFiles ∧
    ((run env chattyTools climbingConfig).run (.start climbedFiles)).2.files = climbedFiles := by
  intro env pass
  have hquiet : quietTools.Spares := ⟨fun _ _ => rfl, fun _ _ _ => rfl⟩
  have hchatty : chattyTools.Spares := ⟨fun _ _ => rfl, fun _ _ _ => rfl⟩
  have hsame : quietTools.AnswersAs chattyTools (fun _ _ => True) := ⟨fun _ _ => trivial, fun _ _ _ => rfl⟩
  have hc : climbingConfig.absolute (FileSystem.pathOf? ∅ .root) = .ok climbedConfig := by cbv
  have hm : FileSystem.makeDirectories ∅ .root climbedConfig.outputDir = (climbedFiles, .ok ()) := by cbv
  have hd : climbedFiles.isDirectory .root climbedConfig.sourceDir = false := by cbv
  have hp : (quietTools.prepare (.ofConfig climbedConfig)).run (.start climbedFiles) =
      (.ok (), .start climbedFiles) := rfl
  have hruns : Runs env quietTools (.begun climbingConfig) ∅ _ (.ended (.ok (.noSources (.ofString "/in"))))
      climbedFiles :=
    .step (.resolve hc) (.step (.makeOutput hm) (.step (.prepare hp) (.step (.inspectNothing hd) .done)))
  obtain ⟨hpass, -, hfiles⟩ := run_of_runs hruns
  obtain ⟨-, -, -, hagain, -⟩ := run_only_makes_output hquiet hchatty hsame env climbingConfig ∅
  have hagain := (hagain _ hpass).2.2.2
  rw [hfiles] at hagain
  exact ⟨hquiet, hchatty, hsame, hpass, hfiles, hagain⟩

end Pass

end GrammarBatch
