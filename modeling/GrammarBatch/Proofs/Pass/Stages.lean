import GrammarBatch.Pass.Basic

/-!
# A pass as a sequence of steps

* `Pass.Stage`, `Pass.Takes`: how far a pass has come, and what each step does, or why it is the last one;
* `Pass.Runs`: steps one after another, `Pass.Runs.unique` as no stage leaves a choice;
* **`Pass.runs_run`**: a pass takes the steps that it records, until it ends.

A step is described by the files that it finds and the files that it leaves.
-/

namespace GrammarBatch

variable {τ ε : Type}

/-! ## What jobs do to files and steps -/

namespace Course

@[simp] theorem files_start (fs : FileSystem) : (start fs : Course τ).files = fs := rfl

@[simp] theorem steps_start (fs : FileSystem) : (start fs : Course τ).steps = [] := rfl

end Course

namespace Job

variable {α β : Type}

theorem run_bind (j : Job τ α) (k : α → Job τ β) (course : Course τ) :
    (j >>= k).run course = (k (j.run course).1).run (j.run course).2 := rfl

theorem run_files (course : Course τ) : (Job.files : Job τ FileSystem).run course = (course.files, course) := rfl

theorem exists_run_step (s : Step) (course : Course τ) : ∃ course',
    (Job.step s).run course = ((), course') ∧ course'.files = course.files ∧
      course'.steps = course.steps ++ [s] := by
  refine ⟨_, rfl, rfl, ?_⟩
  rw [Course.steps, List.filterMap_append]
  rfl

theorem exists_run_log (level : Log.Level) (m : String) (course : Course τ) : ∃ course',
    (Job.log level m).run course = ((), course') ∧ course'.files = course.files ∧
      course'.steps = course.steps := by
  refine ⟨_, rfl, rfl, ?_⟩
  rw [Course.steps, List.filterMap_append]
  exact List.append_nil _

theorem exists_run_change (f : FileSystem → FileSystem × α) (course : Course τ) : ∃ course',
    (Job.change f).run course = ((f course.files).2, course') ∧ course'.files = (f course.files).1 ∧
      course'.steps = course.steps :=
  ⟨_, rfl, rfl, rfl⟩

/-- The tool changes files, but takes no step. -/
theorem exists_run_delegate (j : Job τ α) (course : Course τ) : ∃ course',
    (Job.delegate j).run course = ((j.run (.start course.files)).1, course') ∧
      course'.files = (j.run (.start course.files)).2.files ∧ course'.steps = course.steps := by
  refine ⟨_, rfl, rfl, ?_⟩
  have hnone (events : List (Event τ)) :
      (events.filter (·.step?.isNone)).filterMap Event.step? = [] := by
    refine List.filterMap_eq_nil_iff.2 fun e he => ?_
    exact Option.isNone_iff_eq_none.1 (List.mem_filter.1 he).2
  rw [Course.steps, List.filterMap_append, hnone, List.append_nil]
  rfl

end Job

namespace Pass

theorem exists_run_logAll (level : Log.Level) (messages : List String) (course : Course τ) : ∃ course',
    (logAll level messages).run course = ((), course') ∧ course'.files = course.files ∧
      course'.steps = course.steps := by
  unfold logAll
  induction messages generalizing course with
  | nil => exact ⟨course, rfl, rfl, rfl⟩
  | cons m messages ih =>
    have hcons : ((m :: messages).forM (Job.log level) : Job τ Unit) =
        (Job.log level m >>= fun _ => messages.forM (Job.log level)) := rfl
    obtain ⟨course₁, h₁, hf₁, hs₁⟩ := Job.exists_run_log level m course
    obtain ⟨course₂, h₂, hf₂, hs₂⟩ := ih course₁
    rw [hcons, Job.run_bind, h₁]
    exact ⟨course₂, h₂, hf₂.trans hf₁, hs₂.trans hs₁⟩

/-! ## Stages -/

/-- How far a pass has come. -/
inductive Stage (ε : Type) where
  | begun (c : BuildConfig)
  | resolved (c : BuildConfig)
  | outputMade (c : BuildConfig)
  | toolReady (c : BuildConfig) (engine : ε)
  | sourceFound (c : BuildConfig) (engine : ε)
  | gathered (c : BuildConfig) (engine : ε) (batch : Batch)
  | compiled (c : BuildConfig) (batch : Batch) (warnings : Nat)
  | ended (r : Except BuildError Outcome)

/-- One step leads from a stage and files to the next stage and files. A step that fails is the last one,
and so is the look at a source directory that is not there. -/
inductive Takes (env : Environment) (tools : Toolchain τ ε) :
    Stage ε → FileSystem → Step → Stage ε → FileSystem → Prop where
  | resolve {c c' : BuildConfig} {fs : FileSystem} (h : c.absolute (fs.pathOf? env.current) = .ok c') :
    Takes env tools (.begun c) fs .resolve (.resolved c') fs
  | resolveFails {c : BuildConfig} {fs : FileSystem} {x : ConfigError}
    (h : c.absolute (fs.pathOf? env.current) = .error x) :
    Takes env tools (.begun c) fs .resolve (.ended (.error (.config x))) fs
  | makeOutput {c : BuildConfig} {fs fs' : FileSystem}
    (h : fs.makeDirectories env.current c.outputDir = (fs', .ok ())) :
    Takes env tools (.resolved c) fs (.makeOutput c.outputDir) (.outputMade c) fs'
  | makeOutputFails {c : BuildConfig} {fs fs' : FileSystem} {x : SystemError}
    (h : fs.makeDirectories env.current c.outputDir = (fs', .error x)) :
    Takes env tools (.resolved c) fs (.makeOutput c.outputDir)
      (.ended (.error (.outputDir c.outputDir x))) fs'
  | prepare {c : BuildConfig} {fs : FileSystem} {engine : ε} {course : Course τ}
    (h : (tools.prepare (.ofConfig c)).run (.start fs) = (.ok engine, course)) :
    Takes env tools (.outputMade c) fs (.prepare (.ofConfig c)) (.toolReady c engine) course.files
  | prepareFails {c : BuildConfig} {fs : FileSystem} {x : ToolError} {course : Course τ}
    (h : (tools.prepare (.ofConfig c)).run (.start fs) = (.error x, course)) :
    Takes env tools (.outputMade c) fs (.prepare (.ofConfig c)) (.ended (.error (.toolUnavailable x)))
      course.files
  | inspect {c : BuildConfig} {fs : FileSystem} {engine : ε}
    (h : fs.isDirectory env.current c.sourceDir = true) :
    Takes env tools (.toolReady c engine) fs (.inspect c.sourceDir) (.sourceFound c engine) fs
  | inspectNothing {c : BuildConfig} {fs : FileSystem} {engine : ε}
    (h : fs.isDirectory env.current c.sourceDir = false) :
    Takes env tools (.toolReady c engine) fs (.inspect c.sourceDir) (.ended (.ok (.noSources c.sourceDir))) fs
  | discover {c : BuildConfig} {fs : FileSystem} {engine : ε} {grammars : List GrammarPath}
    (h : (Filter.ofConfig c).scan fs env.current c.sourceDir = .ok grammars) :
    Takes env tools (.sourceFound c engine) fs (.discover c.sourceDir)
      (.gathered c engine ⟨c.sourceDir, true, grammars⟩) fs
  | discoverFails {c : BuildConfig} {fs : FileSystem} {engine : ε} {x : ScanError}
    (h : (Filter.ofConfig c).scan fs env.current c.sourceDir = .error x) :
    Takes env tools (.sourceFound c engine) fs (.discover c.sourceDir) (.ended (.error (.discovery x))) fs
  | compile {c : BuildConfig} {fs : FileSystem} {engine : ε} {batch : Batch} {tally : Tally}
    {course : Course τ} (hb : batch.grammars ≠ [])
    (h : (tools.compile engine batch).run (.start fs) = (.ok tally, course)) (ht : tally.isSuccess = true) :
    Takes env tools (.gathered c engine batch) fs (.compile batch) (.compiled c batch tally.warnings)
      course.files
  | compileFails {c : BuildConfig} {fs : FileSystem} {engine : ε} {batch : Batch} {x : ToolError}
    {course : Course τ} (hb : batch.grammars ≠ [])
    (h : (tools.compile engine batch).run (.start fs) = (.error x, course)) :
    Takes env tools (.gathered c engine batch) fs (.compile batch) (.ended (.error (.toolRun x))) course.files
  | compileFindsErrors {c : BuildConfig} {fs : FileSystem} {engine : ε} {batch : Batch} {tally : Tally}
    {course : Course τ} (hb : batch.grammars ≠ [])
    (h : (tools.compile engine batch).run (.start fs) = (.ok tally, course)) (ht : tally.isSuccess = false) :
    Takes env tools (.gathered c engine batch) fs (.compile batch)
      (.ended (.error (.grammarErrors tally.errors))) course.files
  | registerNothing {c : BuildConfig} {fs : FileSystem} {engine : ε} {batch : Batch}
    (hb : batch.grammars = []) :
    Takes env tools (.gathered c engine batch) fs (.register c.outputDir) (.ended (.ok .noGrammars)) fs
  | register {c : BuildConfig} {fs : FileSystem} {batch : Batch} {warnings : Nat} :
    Takes env tools (.compiled c batch warnings) fs (.register c.outputDir)
      (.ended (.ok (.compiled batch.grammars warnings))) fs

/-- Steps lead one after another from a stage and files to a later stage and files. -/
inductive Runs (env : Environment) (tools : Toolchain τ ε) :
    Stage ε → FileSystem → List Step → Stage ε → FileSystem → Prop where
  | done {s : Stage ε} {fs : FileSystem} : Runs env tools s fs [] s fs
  | step {s s' s'' : Stage ε} {fs fs' fs'' : FileSystem} {a : Step} {steps : List Step}
    (h : Takes env tools s fs a s' fs') (hr : Runs env tools s' fs' steps s'' fs'') :
    Runs env tools s fs (a :: steps) s'' fs''

variable {env : Environment} {tools : Toolchain τ ε} {s s₁ s₂ : Stage ε} {fs fs₁ fs₂ : FileSystem}
  {a a₁ a₂ : Step} {steps steps₁ steps₂ : List Step}

/-- No stage leaves a choice. -/
theorem Takes.unique (h₁ : Takes env tools s fs a₁ s₁ fs₁) (h₂ : Takes env tools s fs a₂ s₂ fs₂) :
    a₁ = a₂ ∧ s₁ = s₂ ∧ fs₁ = fs₂ := by
  cases h₁ with
  | prepare h =>
    cases h₂ with
    | prepare h' => cases h.symm.trans h'; exact ⟨rfl, rfl, rfl⟩
    | prepareFails h' => cases h.symm.trans h'
  | prepareFails h =>
    cases h₂ with
    | prepare h' => cases h.symm.trans h'
    | prepareFails h' => cases h.symm.trans h'; exact ⟨rfl, rfl, rfl⟩
  | compile hb h ht =>
    cases h₂ with
    | compile _ h' _ => cases h.symm.trans h'; exact ⟨rfl, rfl, rfl⟩
    | compileFails _ h' => cases h.symm.trans h'
    | compileFindsErrors _ h' ht' => cases h.symm.trans h'; cases ht.symm.trans ht'
    | registerNothing hb' => exact absurd hb' hb
  | compileFails hb h =>
    cases h₂ with
    | compile _ h' _ => cases h.symm.trans h'
    | compileFails _ h' => cases h.symm.trans h'; exact ⟨rfl, rfl, rfl⟩
    | compileFindsErrors _ h' _ => cases h.symm.trans h'
    | registerNothing hb' => exact absurd hb' hb
  | compileFindsErrors hb h ht =>
    cases h₂ with
    | compile _ h' ht' => cases h.symm.trans h'; cases ht.symm.trans ht'
    | compileFails _ h' => cases h.symm.trans h'
    | compileFindsErrors _ h' _ => cases h.symm.trans h'; exact ⟨rfl, rfl, rfl⟩
    | registerNothing hb' => exact absurd hb' hb
  | _ => cases h₂ <;> simp_all

theorem not_takes_ended {r : Except BuildError Outcome} : ¬ Takes env tools (.ended r) fs a s₁ fs₁ := nofun

theorem Runs.unique {r₁ r₂ : Except BuildError Outcome} (h₁ : Runs env tools s fs steps₁ (.ended r₁) fs₁)
    (h₂ : Runs env tools s fs steps₂ (.ended r₂) fs₂) : steps₁ = steps₂ ∧ r₁ = r₂ ∧ fs₁ = fs₂ := by
  generalize he : Stage.ended r₁ = e at h₁
  induction h₁ generalizing steps₂ with
  | done =>
    subst he
    cases h₂ with
    | done => exact ⟨rfl, rfl, rfl⟩
    | step h _ => exact absurd h not_takes_ended
  | step h hr ih =>
    cases h₂ with
    | done => exact absurd h not_takes_ended
    | step h' hr' =>
      obtain ⟨rfl, rfl, rfl⟩ := h.unique h'
      obtain ⟨rfl, rfl, rfl⟩ := ih hr' he
      exact ⟨rfl, rfl, rfl⟩

theorem Runs.trans (h₁ : Runs env tools s fs steps₁ s₁ fs₁) (h₂ : Runs env tools s₁ fs₁ steps₂ s₂ fs₂) :
    Runs env tools s fs (steps₁ ++ steps₂) s₂ fs₂ := by
  induction h₁ with
  | done => exact h₂
  | step h _ ih => exact .step h (ih h₂)

/-! ## The pass takes these steps -/

/-- From the stage and the course of things, the steps lead to that result. -/
def Comes (env : Environment) (tools : Toolchain τ ε) (s : Stage ε) (course : Course τ)
    (r : Except BuildError Outcome × Course τ) : Prop :=
  ∃ steps, r.2.steps = course.steps ++ steps ∧ Runs env tools s course.files steps (.ended r.1) r.2.files

variable {course course' : Course τ} {r : Except BuildError Outcome × Course τ}

/-- What is only logged makes no difference. -/
theorem Comes.congr (hf : course'.files = course.files) (hs : course'.steps = course.steps)
    (h : Comes env tools s course' r) : Comes env tools s course r := by
  obtain ⟨steps, hsteps, hr⟩ := h
  rw [hs] at hsteps
  rw [hf] at hr
  exact ⟨steps, hsteps, hr⟩

theorem Comes.step (h : Takes env tools s fs a s₁ fs₁) (hf : course.files = fs) (hf₁ : course'.files = fs₁)
    (hs : course'.steps = course.steps ++ [a]) (hr : Comes env tools s₁ course' r) :
    Comes env tools s course r := by
  obtain ⟨steps, hsteps, hr⟩ := hr
  rw [← hf, ← hf₁] at h
  refine ⟨a :: steps, ?_, .step h hr⟩
  rw [hsteps, hs, List.append_assoc, List.singleton_append]

theorem Comes.last {x : Except BuildError Outcome} (h : Takes env tools s fs a (.ended x) fs₁)
    (hf : course.files = fs) (hf₁ : course'.files = fs₁) (hs : course'.steps = course.steps ++ [a]) :
    Comes env tools s course (x, course') := by
  rw [← hf, ← hf₁] at h
  exact ⟨[a], hs, .step h .done⟩

theorem comes_compileBatch (c : BuildConfig) (engine : ε) (batch : Batch) (course : Course τ) :
    Comes env tools (.gathered c engine batch) course ((compileBatch tools engine c batch).run course) := by
  by_cases hb : batch.grammars = []
  · obtain ⟨course₁, h₁, hf₁, hs₁⟩ := Job.exists_run_log .info "no grammars to process" course
    obtain ⟨course₂, h₂, hf₂, hs₂⟩ := Job.exists_run_step (.register c.outputDir) course₁
    rw [compileBatch, if_pos (List.isEmpty_iff.2 hb), Job.run_bind, h₁, Job.run_bind, h₂]
    exact .congr hf₁ hs₁ (.last (.registerNothing hb) rfl hf₂ hs₂)
  · obtain ⟨course₁, h₁, hf₁, hs₁⟩ := Job.exists_run_step (.compile batch) course
    obtain ⟨course₂, h₂, hf₂, hs₂⟩ := Job.exists_run_delegate (tools.compile engine batch) course₁
    rw [compileBatch, if_neg fun he => hb (List.isEmpty_iff.1 he), Job.run_bind, h₁, Job.run_bind, h₂]
    rw [hf₁] at hf₂ ⊢
    rw [hs₁] at hs₂
    cases hc : (tools.compile engine batch).run (.start course.files) with
    | mk x done =>
      rw [hc] at hf₂
      cases x with
      | error cause =>
        change Comes env tools _ course (.error (.toolRun cause), course₂)
        exact .last (.compileFails hb hc) rfl hf₂ hs₂
      | ok tally =>
        cases ht : tally.isSuccess with
        | false =>
          dsimp only
          rw [if_pos (by simp [ht])]
          change Comes env tools _ course (.error (.grammarErrors tally.errors), course₂)
          exact .last (.compileFindsErrors hb hc ht) rfl hf₂ hs₂
        | true =>
          obtain ⟨course₃, h₃, hf₃, hs₃⟩ := Job.exists_run_step (.register c.outputDir) course₂
          dsimp only
          rw [if_neg (by simp [ht]), Job.run_bind, h₃]
          change Comes env tools _ course (.ok (.compiled batch.grammars tally.warnings), course₃)
          exact .step (.compile hb hc ht) rfl hf₂ hs₂ (.last .register rfl hf₃ hs₃)

/-- The grammars of a configuration are gathered from the files, which stay as they are. -/
theorem exists_run_collectBatch (env : Environment) (c : BuildConfig) (course : Course τ) : ∃ course',
    (collectBatch env c).run course =
      (match (Filter.ofConfig c).scan course.files env.current c.sourceDir with
        | .error x => .error (.discovery x)
        | .ok grammars => .ok ⟨c.sourceDir, true, grammars⟩, course') ∧
      course'.files = course.files ∧ course'.steps = course.steps := by
  rw [collectBatch, Job.run_bind, Job.run_files]
  dsimp only
  cases (Filter.ofConfig c).scan course.files env.current c.sourceDir with
  | error x => exact ⟨course, rfl, rfl, rfl⟩
  | ok grammars =>
    obtain ⟨course₁, h₁, hf₁, hs₁⟩ := exists_run_logAll .debug (findings c grammars) course
    dsimp only
    rw [Job.run_bind, h₁]
    exact ⟨course₁, rfl, hf₁, hs₁⟩

theorem comes_processSources (c : BuildConfig) (engine : ε) (course : Course τ) :
    Comes env tools (.toolReady c engine) course ((processSources env tools engine c).run course) := by
  obtain ⟨course₁, h₁, hf₁, hs₁⟩ := Job.exists_run_step (.inspect c.sourceDir) course
  rw [processSources, Job.run_bind, h₁, Job.run_bind, Job.run_files]
  dsimp only
  rw [hf₁]
  cases hd : course.files.isDirectory env.current c.sourceDir with
  | false =>
    obtain ⟨course₂, h₂, hf₂, hs₂⟩ :=
      Job.exists_run_log .info ("no grammars to compile in " ++ c.sourceDir.display) course₁
    rw [if_pos (by simp), Job.run_bind, h₂]
    change Comes env tools _ course (.ok (.noSources c.sourceDir), course₂)
    exact .last (.inspectNothing hd) rfl (hf₂.trans hf₁) (hs₂.trans hs₁)
  | true =>
    obtain ⟨course₂, h₂, hf₂, hs₂⟩ :=
      Job.exists_run_log .info ("processing source directory " ++ c.sourceDir.display) course₁
    obtain ⟨course₃, h₃, hf₃, hs₃⟩ := Job.exists_run_step (.discover c.sourceDir) course₂
    obtain ⟨course₄, h₄, hf₄, hs₄⟩ := exists_run_collectBatch env c course₃
    rw [if_neg (by simp), Job.run_bind, h₂, Job.run_bind, h₃, Job.run_bind, h₄]
    have hf₃ : course₃.files = course.files := by rw [hf₃, hf₂, hf₁]
    have hs₄ : course₄.steps = course₂.steps ++ [.discover c.sourceDir] := hs₄.trans hs₃
    refine .step (.inspect hd) rfl (hf₂.trans hf₁) (hs₂.trans hs₁) ?_
    rw [hf₃]
    cases hscan : (Filter.ofConfig c).scan course.files env.current c.sourceDir with
    | error x =>
      change Comes env tools _ course₂ (.error (.discovery x), course₄)
      exact .last (.discoverFails hscan) (hf₂.trans hf₁) (hf₄.trans hf₃) hs₄
    | ok grammars =>
      exact .step (.discover hscan) (hf₂.trans hf₁) (hf₄.trans hf₃) hs₄
        (comes_compileBatch c engine ⟨c.sourceDir, true, grammars⟩ course₄)

theorem exists_run_makeOutput (env : Environment) (c : BuildConfig) (course : Course τ) : ∃ course',
    (makeOutput env c).run course =
      ((course.files.makeDirectories env.current c.outputDir).2.mapError (.outputDir c.outputDir), course') ∧
      course'.files = (course.files.makeDirectories env.current c.outputDir).1 ∧
        course'.steps = course.steps ++ [.makeOutput c.outputDir] := by
  obtain ⟨course₁, h₁, hf₁, hs₁⟩ := Job.exists_run_step (.makeOutput c.outputDir) course
  obtain ⟨course₂, h₂, hf₂, hs₂⟩ :=
    Job.exists_run_change (fun fs => fs.makeDirectories env.current c.outputDir) course₁
  rw [makeOutput, Job.run_bind, h₁, Job.run_bind, h₂]
  rw [hf₁] at hf₂ ⊢
  exact ⟨course₂, rfl, hf₂, hs₂.trans hs₁⟩

theorem exists_run_prepareTool (tools : Toolchain τ ε) (c : BuildConfig) (course : Course τ) : ∃ course',
    (prepareTool tools c).run course =
      (((tools.prepare (.ofConfig c)).run (.start course.files)).1.mapError .toolUnavailable, course') ∧
      course'.files = ((tools.prepare (.ofConfig c)).run (.start course.files)).2.files ∧
        course'.steps = course.steps ++ [.prepare (.ofConfig c)] := by
  obtain ⟨course₁, h₁, hf₁, hs₁⟩ := Job.exists_run_log .debug
    ("output directory base will be " ++ (Binding.ofConfig c).outputDir.display) course
  obtain ⟨course₂, h₂, hf₂, hs₂⟩ := Job.exists_run_step (.prepare (.ofConfig c)) course₁
  obtain ⟨course₃, h₃, hf₃, hs₃⟩ := Job.exists_run_delegate (tools.prepare (.ofConfig c)) course₂
  rw [prepareTool, Job.run_bind, h₁, Job.run_bind, h₂, Job.run_bind, h₃]
  rw [hf₂, hf₁] at hf₃ ⊢
  rw [hs₂, hs₁] at hs₃
  cases ((tools.prepare (.ofConfig c)).run (.start course.files)).1 with
  | ok engine => exact ⟨course₃, rfl, hf₃, hs₃⟩
  | error cause =>
    obtain ⟨course₄, h₄, hf₄, hs₄⟩ := Job.exists_run_log .error
      ("the attempt to create the grammar tool failed: " ++ cause.message) course₃
    dsimp only
    rw [Job.run_bind, h₄]
    exact ⟨course₄, rfl, hf₄.trans hf₃, hs₄.trans hs₃⟩

theorem comes_runResolved (c : BuildConfig) (course : Course τ) :
    Comes env tools (.resolved c) course ((runResolved env tools c).run course) := by
  obtain ⟨course₁, h₁, hf₁, hs₁⟩ := exists_run_logAll .debug (parameters c) course
  obtain ⟨course₂, h₂, hf₂, hs₂⟩ := exists_run_makeOutput env c course₁
  rw [runResolved, Job.run_bind, h₁, Job.run_bind, h₂]
  refine .congr hf₁ hs₁ ?_
  cases hm : course₁.files.makeDirectories env.current c.outputDir with
  | mk fs made =>
    rw [hm] at hf₂
    cases made with
    | error x =>
      change Comes env tools _ course₁ (.error (.outputDir c.outputDir x), course₂)
      exact .last (.makeOutputFails hm) rfl hf₂ hs₂
    | ok u =>
      obtain ⟨course₃, h₃, hf₃, hs₃⟩ := exists_run_prepareTool tools c course₂
      refine .step (.makeOutput hm) rfl hf₂ hs₂ ?_
      change Comes env tools _ course₂ ((prepareTool tools c >>= _).run course₂)
      rw [Job.run_bind, h₃]
      cases hp : (tools.prepare (.ofConfig c)).run (.start course₂.files) with
      | mk x done =>
        rw [hp] at hf₃
        cases x with
        | error cause =>
          change Comes env tools _ course₂ (.error (.toolUnavailable cause), course₃)
          exact .last (.prepareFails hp) rfl hf₃ hs₃
        | ok engine => exact .step (.prepare hp) rfl hf₃ hs₃ (comes_processSources c engine course₃)

theorem comes_run (env : Environment) (tools : Toolchain τ ε) (c : BuildConfig) (course : Course τ) :
    Comes env tools (.begun c) course ((run env tools c).run course) := by
  obtain ⟨course₁, h₁, hf₁, hs₁⟩ := Job.exists_run_step .resolve course
  rw [run, Job.run_bind, h₁, Job.run_bind, Job.run_files]
  dsimp only
  rw [hf₁]
  cases hc : c.absolute (course.files.pathOf? env.current) with
  | error x =>
    change Comes env tools _ course (.error (.config x), course₁)
    exact .last (.resolveFails hc) rfl hf₁ hs₁
  | ok c' => exact .step (.resolve hc) rfl hf₁ hs₁ (comes_runResolved c' course₁)

/-- **A pass takes the steps that it records, one after another, until it ends.** -/
theorem runs_run (env : Environment) (tools : Toolchain τ ε) (c : BuildConfig) (fs : FileSystem) :
    Runs env tools (.begun c) fs ((run env tools c).run (.start fs)).2.steps
      (.ended ((run env tools c).run (.start fs)).1) ((run env tools c).run (.start fs)).2.files := by
  obtain ⟨steps, hs, hr⟩ := comes_run env tools c (.start fs)
  rw [Course.steps_start, List.nil_append] at hs
  rw [hs]
  exact hr

/-- Steps that lead to an end are those that the pass takes. -/
theorem run_of_runs {x : Except BuildError Outcome} {c : BuildConfig}
    (h : Runs env tools (.begun c) fs steps (.ended x) fs₁) :
    ((run env tools c).run (.start fs)).1 = x ∧ ((run env tools c).run (.start fs)).2.steps = steps ∧
      ((run env tools c).run (.start fs)).2.files = fs₁ := by
  obtain ⟨hs, hx, hf⟩ := (runs_run env tools c fs).unique h
  exact ⟨hx, hs, hf⟩

end Pass

end GrammarBatch
