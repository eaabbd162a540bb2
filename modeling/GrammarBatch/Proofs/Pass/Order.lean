import GrammarBatch.Proofs.Config.Absolute
import GrammarBatch.Proofs.Discovery.Scan
import GrammarBatch.Proofs.Files.Folders
import GrammarBatch.Proofs.Pass.Stages
import Mathlib

/-!
# The order of a pass

* `Pass.order`: the steps of a pass, one after another;
* `Pass.TakenAway`, `Pass.kept_takes`: a call of the tool takes a directory away, and nothing else does;
* `Pass.Known`, `Pass.known_takes`, `Pass.known_runs`: what each stage knows about the steps before it, kept
  by every step and so by every run of steps;
* **`Pass.orderly_run`**: a pass keeps to the order, ends with the first failure, and registers its output
  directory exactly where it ends well with a source directory.

A source directory without grammars is the one case in which the order is not kept to the letter: nothing is
compiled, and the output directory is registered all the same.
-/

namespace GrammarBatch

variable {τ ε : Type}

namespace Step

/-- The position of each kind of step. -/
def rank : Step → Nat
  | resolve => 0
  | makeOutput _ => 1
  | prepare _ => 2
  | inspect _ => 3
  | discover _ => 4
  | compile _ => 5
  | register _ => 6

/-- The directory that the step registers, if it does. -/
def registered? : Step → Option Path
  | register p => some p
  | _ => none

/-- Whether the step is a call of the tool. -/
def isCall : Step → Bool
  | prepare _ | compile _ => true
  | _ => false

end Step

theorem Course.registered_eq (course : Course τ) :
    course.registered = course.steps.filterMap Step.registered? := by
  rw [Course.registered, Course.steps, List.filterMap_filterMap]
  refine List.filterMap_congr fun e _ => ?_
  cases e with
  | step s => cases s <;> rfl
  | _ => rfl

namespace Pass

/-- The steps of a pass that leaves none out. -/
def order (c : BuildConfig) (batch : Batch) : List Step :=
  [.resolve, .makeOutput c.outputDir, .prepare (.ofConfig c), .inspect c.sourceDir, .discover c.sourceDir,
    .compile batch, .register c.outputDir]

/-- The steps of a pass that finds nothing to compile. -/
def idleOrder (c : BuildConfig) : List Step :=
  [.resolve, .makeOutput c.outputDir, .prepare (.ofConfig c), .inspect c.sourceDir, .discover c.sourceDir,
    .register c.outputDir]

variable {env : Environment} {tools : Toolchain τ ε} {c₀ : BuildConfig} {fs₀ : FileSystem}
  {s s' : Stage ε} {fs fs' : FileSystem} {a : Step} {steps before after : List Step} {p : Path}

/-! ## What becomes of a directory -/

/-- Among the steps of a pass for `c₀` that began with the files `fs₀` there is a call of the tool that found the
directory and left without it. -/
def TakenAway (env : Environment) (tools : Toolchain τ ε) (c₀ : BuildConfig) (fs₀ : FileSystem)
    (steps : List Step) (p : Path) : Prop :=
  ∃ before a after s fs s' fs', steps = before ++ a :: after ∧ Runs env tools (.begun c₀) fs₀ before s fs ∧
    Takes env tools s fs a s' fs' ∧ a.isCall = true ∧ fs.isDirectory env.current p = true ∧
      fs'.isDirectory env.current p = false

/-- The directory is there still, if the tool did not take it away. -/
def Kept (env : Environment) (tools : Toolchain τ ε) (c₀ : BuildConfig) (fs₀ : FileSystem)
    (steps : List Step) (fs : FileSystem) (p : Path) : Prop :=
  fs.isDirectory env.current p = true ∨ TakenAway env tools c₀ fs₀ steps p

theorem TakenAway.concat (h : TakenAway env tools c₀ fs₀ steps p) (a : Step) :
    TakenAway env tools c₀ fs₀ (steps ++ [a]) p := by
  obtain ⟨before, b, after, s, fs, s', fs', rfl, h⟩ := h
  exact ⟨before, b, after ++ [a], s, fs, s', fs', by simp, h⟩

/-- The output directory made, only calls of the tool change files. -/
theorem files_eq_of_takes (h : Takes env tools s fs a s' fs') (ha : a.isCall = false)
    (hm : ∀ q, a ≠ .makeOutput q) : fs' = fs := by
  cases h with
  | makeOutput | makeOutputFails => exact absurd rfl (hm _)
  | prepare | prepareFails | compile | compileFails | compileFindsErrors => cases ha
  | _ => rfl

theorem kept_takes (hr : Runs env tools (.begun c₀) fs₀ steps s fs) (h : Takes env tools s fs a s' fs')
    (hm : ∀ q, a ≠ .makeOutput q) (hk : Kept env tools c₀ fs₀ steps fs p) :
    Kept env tools c₀ fs₀ (steps ++ [a]) fs' p := by
  rcases hk with hd | htaken
  · cases hd' : fs'.isDirectory env.current p with
    | true => exact Or.inl hd'
    | false =>
      refine Or.inr ⟨steps, a, [], s, fs, s', fs', rfl, hr, h, ?_, hd, hd'⟩
      by_contra ha
      rw [files_eq_of_takes h (Bool.eq_false_iff.2 ha) hm, hd] at hd'
      cases hd'
  · exact Or.inr (htaken.concat a)

/-! ## What is known at each stage -/

/-- What is known of a pass for `c₀` that began with the files `fs₀` and has come to a stage and to the files
`fs` by the steps. -/
def Known (env : Environment) (tools : Toolchain τ ε) (c₀ : BuildConfig) (fs₀ : FileSystem)
    (steps : List Step) : Stage ε → FileSystem → Prop
  | .begun c, fs => steps = [] ∧ c = c₀ ∧ fs = fs₀
  | .resolved c, fs => (∀ batch, steps = (order c batch).take 1) ∧
      c₀.absolute (fs₀.pathOf? env.current) = .ok c ∧ fs = fs₀
  | .outputMade c, fs => (∀ batch, steps = (order c batch).take 2) ∧
      c₀.absolute (fs₀.pathOf? env.current) = .ok c ∧ fs.isDirectory env.current c.outputDir = true
  | .toolReady c _, fs => (∀ batch, steps = (order c batch).take 3) ∧
      c₀.absolute (fs₀.pathOf? env.current) = .ok c ∧
      Kept env tools c₀ fs₀ steps fs c.outputDir
  | .sourceFound c _, fs => (∀ batch, steps = (order c batch).take 4) ∧
      c₀.absolute (fs₀.pathOf? env.current) = .ok c ∧
      Kept env tools c₀ fs₀ steps fs c.outputDir
  | .gathered c _ batch, fs => (∀ batch, steps = (order c batch).take 5) ∧
      c₀.absolute (fs₀.pathOf? env.current) = .ok c ∧
      Kept env tools c₀ fs₀ steps fs c.outputDir ∧
      batch.make = true ∧ ((collectBatch env c : Job τ _).run (.start fs)).1 = .ok batch
  | .compiled c batch _, fs => steps = (order c batch).take 6 ∧
      c₀.absolute (fs₀.pathOf? env.current) = .ok c ∧
      Kept env tools c₀ fs₀ steps fs c.outputDir
  | .ended _, _ => True

theorem known_takes (hr : Runs env tools (.begun c₀) fs₀ steps s fs) (h : Takes env tools s fs a s' fs')
    (hk : Known env tools c₀ fs₀ steps s fs) : Known env tools c₀ fs₀ (steps ++ [a]) s' fs' := by
  have hkept {c : BuildConfig} := kept_takes (p := c.outputDir) hr h
  cases h with
  | resolve h =>
    obtain ⟨rfl, rfl, rfl⟩ := hk
    exact ⟨fun _ => rfl, h, rfl⟩
  | makeOutput h =>
    obtain ⟨hs, hc, rfl⟩ := hk
    refine ⟨fun batch => by rw [hs batch]; rfl, hc, ?_⟩
    exact FileSystem.isDirectory_makeDirectories (BuildConfig.isAbsolute_outputDir hc) h
  | prepare =>
    obtain ⟨hs, hc, hd⟩ := hk
    exact ⟨fun batch => by rw [hs batch]; rfl, hc, hkept (by simp) (Or.inl hd)⟩
  | inspect =>
    obtain ⟨hs, hc, hd⟩ := hk
    exact ⟨fun batch => by rw [hs batch]; rfl, hc, hkept (by simp) hd⟩
  | @discover c _ engine grammars hscan =>
    obtain ⟨hs, hc, hd⟩ := hk
    obtain ⟨course, hrun, -⟩ := exists_run_collectBatch env c (.start fs : Course τ)
    refine ⟨fun batch => by rw [hs batch]; rfl, hc, hkept (by simp) hd, rfl, ?_⟩
    rw [hrun, Course.files_start, hscan]
  | @compile c _ engine batch =>
    obtain ⟨hs, hc, hd, -⟩ := hk
    exact ⟨by rw [hs batch]; rfl, hc, hkept (by simp) hd⟩
  | _ => trivial

theorem known_runs (hr : Runs env tools (.begun c₀) fs₀ before s fs) (h : Runs env tools s fs after s' fs')
    (hk : Known env tools c₀ fs₀ before s fs) : Known env tools c₀ fs₀ (before ++ after) s' fs' := by
  induction h generalizing before with
  | done =>
    rw [List.append_nil]
    exact hk
  | step h _ ih =>
    rw [List.append_cons]
    exact ih (hr.trans (.step h .done)) (known_takes hr h hk)

theorem known_of_runs (h : Runs env tools (.begun c₀) fs₀ steps s fs) :
    Known env tools c₀ fs₀ steps s fs :=
  known_runs .done h ⟨rfl, rfl, rfl⟩

/-! ## Taking a run apart -/

theorem Runs.split (h : Runs env tools s fs (before ++ a :: after) s' fs') : ∃ s₁ fs₁ s₂ fs₂,
    Runs env tools s fs before s₁ fs₁ ∧ Takes env tools s₁ fs₁ a s₂ fs₂ ∧
      Runs env tools s₂ fs₂ after s' fs' := by
  induction before generalizing s fs with
  | nil =>
    cases h with
    | step h hr => exact ⟨s, fs, _, _, .done, h, hr⟩
  | cons b before ih =>
    cases h with
    | step h hr =>
      obtain ⟨s₁, fs₁, s₂, fs₂, hr₁, ht, hr₂⟩ := ih hr
      exact ⟨s₁, fs₁, s₂, fs₂, .step h hr₁, ht, hr₂⟩

theorem Runs.exists_last {x : Except BuildError Outcome}
    (h : Runs env tools (.begun c₀) fs steps (.ended x) fs') :
    ∃ before a s₁ fs₁, steps = before ++ [a] ∧ Runs env tools (.begun c₀) fs before s₁ fs₁ ∧
      Takes env tools s₁ fs₁ a (.ended x) fs' := by
  rcases List.eq_nil_or_concat' steps with rfl | ⟨before, a, rfl⟩
  · cases h
  · obtain ⟨s₁, fs₁, s₂, fs₂, hr, ht, hlast⟩ := h.split
    cases hlast with
    | done => exact ⟨before, a, s₁, fs₁, rfl, hr, ht⟩

/-! ## The order -/

/-- What a pass for `c₀` that begins with the files `fs₀` and ends with the result `x` comes to. -/
structure Orderly (env : Environment) (tools : Toolchain τ ε) (c₀ : BuildConfig) (fs₀ : FileSystem)
    (x : Except BuildError Outcome) (course : Course τ) : Prop where
  /-- The steps are the first ones of the order; nothing is compiled if there is nothing to compile. -/
  inOrder : ∃ c batch, (c₀.absolute (fs₀.pathOf? env.current) = .ok c ∨ course.steps = [.resolve]) ∧
    (course.steps <+: order c batch ∨ x = .ok .noGrammars ∧ course.steps = idleOrder c ∧ batch.grammars = [] ∧
      ((collectBatch env c : Job τ _).run (.start course.files)).1 = .ok batch)
  /-- No kind of step is taken twice. -/
  once : (course.steps.map Step.rank).Pairwise (· < ·)
  /-- The tool is made ready for the configuration spelled out, once its output directory is there. -/
  prepared : ∀ before binding after, course.steps = before ++ .prepare binding :: after →
    ∃ c fs, c₀.absolute (fs₀.pathOf? env.current) = .ok c ∧ binding = .ofConfig c ∧
      Runs env tools (.begun c₀) fs₀ before (.outputMade c) fs ∧ fs.isDirectory env.current c.outputDir = true
  /-- It compiles all that there is to compile, if there is anything. -/
  compiled : ∀ before batch after, course.steps = before ++ .compile batch :: after →
    ∃ c engine fs, c₀.absolute (fs₀.pathOf? env.current) = .ok c ∧
      Runs env tools (.begun c₀) fs₀ before (.gathered c engine batch) fs ∧ batch.grammars ≠ [] ∧
        batch.make = true ∧ ((collectBatch env c : Job τ _).run (.start fs)).1 = .ok batch
  /-- Where the pass ends well with a source directory, registering is its last step. It follows the end
  of the compiling, unless there was nothing to compile, and the directory is there unless a call of the tool
  took it away. -/
  registered : x = .ok .noGrammars ∨ (∃ grammars warnings, x = .ok (.compiled grammars warnings)) →
    ∃ c before s, c₀.absolute (fs₀.pathOf? env.current) = .ok c ∧
      course.steps = before ++ [.register c.outputDir] ∧ course.registered = [c.outputDir] ∧
        Runs env tools (.begun c₀) fs₀ before s course.files ∧
        (x = .ok .noGrammars ∨ ∃ batch warnings, s = .compiled c batch warnings) ∧
        (course.files.isDirectory env.current c.outputDir = true ∨
          TakenAway env tools c₀ fs₀ before c.outputDir)
  /-- Where it ends otherwise, nothing is registered. -/
  unregistered : x ≠ .ok .noGrammars → (∀ grammars warnings, x ≠ .ok (.compiled grammars warnings)) →
    course.registered = []
  /-- A pass that fails ends with the step that failed, and with its error. -/
  failed : ∀ e, x = .error e → ∃ before a s fs, course.steps = before ++ [a] ∧
    Runs env tools (.begun c₀) fs₀ before s fs ∧ Takes env tools s fs a (.ended (.error e)) course.files

theorem inOrder_of_last {x : Except BuildError Outcome} (hr : Runs env tools (.begun c₀) fs₀ before s fs)
    (h : Takes env tools s fs a (.ended x) fs') :
    ∃ c batch, (c₀.absolute (fs₀.pathOf? env.current) = .ok c ∨ before ++ [a] = [.resolve]) ∧
      (before ++ [a] <+: order c batch ∨ x = .ok .noGrammars ∧ before ++ [a] = idleOrder c ∧
        batch.grammars = [] ∧ ((collectBatch env c : Job τ _).run (.start fs')).1 = .ok batch) := by
  have hk := known_of_runs hr
  let nothing : Batch := ⟨c₀.sourceDir, true, []⟩
  cases h with
  | resolveFails h =>
    obtain ⟨rfl, -, -⟩ := hk
    exact ⟨c₀, nothing, Or.inr rfl, Or.inl ⟨_, rfl⟩⟩
  | @makeOutputFails c | @prepareFails c | @inspectNothing c | @discoverFails c =>
    obtain ⟨hs, hc, -⟩ := hk
    exact ⟨c, nothing, Or.inl hc, Or.inl ⟨_, by rw [hs nothing]; rfl⟩⟩
  | @compileFails c _ engine batch | @compileFindsErrors c _ engine batch =>
    obtain ⟨hs, hc, -⟩ := hk
    exact ⟨c, batch, Or.inl hc, Or.inl ⟨_, by rw [hs batch]; rfl⟩⟩
  | @registerNothing c _ engine batch hb =>
    obtain ⟨hs, hc, -, -, hbatch⟩ := hk
    exact ⟨c, batch, Or.inl hc, Or.inr ⟨rfl, by rw [hs batch]; rfl, hb, hbatch⟩⟩
  | @register c _ batch =>
    obtain ⟨rfl, hc, -⟩ := hk
    exact ⟨c, batch, Or.inl hc, Or.inl ⟨[], rfl⟩⟩

theorem pairwise_rank {c : BuildConfig} {batch : Batch} (h : steps <+: order c batch ∨ steps = idleOrder c) :
    (steps.map Step.rank).Pairwise (· < ·) := by
  rcases h with h | rfl
  · have hall : ((order c batch).map Step.rank).Pairwise (· < ·) := by
      change [0, 1, 2, 3, 4, 5, 6].Pairwise (· < ·)
      decide
    exact hall.sublist (h.sublist.map _)
  · change [0, 1, 2, 3, 4, 6].Pairwise (· < ·)
    decide

/-- Nothing is registered before the last step. -/
theorem registered_before (h : Takes env tools s fs a s' fs') (hk : Known env tools c₀ fs₀ before s fs) :
    before.filterMap Step.registered? = [] := by
  let nothing : Batch := ⟨c₀.sourceDir, true, []⟩
  cases s with
  | begun | compiled =>
    rw [hk.1]
    rfl
  | resolved | outputMade | toolReady | sourceFound | gathered =>
    rw [hk.1 nothing]
    rfl
  | ended r => exact absurd h not_takes_ended

/-- **A pass keeps to the order, registers its output directory exactly where it ends well with a source
directory, and fails with the error of the first step that fails.** -/
theorem orderly_run (env : Environment) (tools : Toolchain τ ε) (c₀ : BuildConfig) (fs₀ : FileSystem) :
    Orderly env tools c₀ fs₀ ((run env tools c₀).run (.start fs₀)).1
      ((run env tools c₀).run (.start fs₀)).2 := by
  have hrun := runs_run env tools c₀ fs₀
  generalize ((run env tools c₀).run (.start fs₀)).1 = x at hrun
  generalize ((run env tools c₀).run (.start fs₀)).2 = course at hrun
  obtain ⟨before, a, s, fs, hsteps, hr, ht⟩ := hrun.exists_last
  have hk := known_of_runs hr
  have hinOrder := inOrder_of_last hr ht
  have hbefore := registered_before ht hk
  have hregistered : course.registered = [a].filterMap Step.registered? := by
    rw [Course.registered_eq, hsteps, List.filterMap_append, hbefore, List.nil_append]
  rw [← hsteps] at hinOrder
  refine ⟨hinOrder, ?_, ?_, ?_, ?_, ?_, ?_⟩
  · obtain ⟨c, batch, -, h⟩ := hinOrder
    exact pairwise_rank (h.imp_right fun h => h.2.1)
  · intro before binding after h
    rw [h] at hrun
    obtain ⟨s₁, fs₁, s₂, fs₂, hr₁, ht₁, -⟩ := hrun.split
    have hk₁ := known_of_runs hr₁
    cases ht₁ with
    | @prepare c | @prepareFails c => exact ⟨c, fs₁, hk₁.2.1, rfl, hr₁, hk₁.2.2⟩
  · intro before batch after h
    rw [h] at hrun
    obtain ⟨s₁, fs₁, s₂, fs₂, hr₁, ht₁, -⟩ := hrun.split
    have hk₁ := known_of_runs hr₁
    cases ht₁ with
    | @compile c _ engine _ _ _ hb | @compileFails c _ engine _ _ _ hb | @compileFindsErrors c _ engine _ _ _ hb =>
      exact ⟨c, engine, fs₁, hk₁.2.1, hr₁, hb, hk₁.2.2.2.1, hk₁.2.2.2.2⟩
  · intro hx
    generalize course.files = files at ht ⊢
    cases ht with
    | @registerNothing c =>
      exact ⟨c, before, _, hk.2.1, hsteps, hregistered, hr, Or.inl rfl, hk.2.2.1⟩
    | @register c _ batch warnings =>
      exact ⟨c, before, _, hk.2.1, hsteps, hregistered, hr, Or.inr ⟨batch, warnings, rfl⟩, hk.2.2⟩
    | _ => simp at hx
  · intro hx hx'
    rw [hregistered]
    generalize course.files = files at ht
    cases ht with
    | registerNothing => exact absurd rfl hx
    | register => exact absurd rfl (hx' _ _)
    | _ => rfl
  · rintro e rfl
    exact ⟨before, a, s, fs, hsteps, hr, ht⟩

/-! ## A pass with nothing to compile -/

/-- A source directory without grammars, and an output directory. -/
def bare : FileSystem where
  entries := [(.ofNames [.ofString "g"], .directory), (.ofNames [.ofString "o"], .directory)]
  nodup := by decide

def bareConfig : BuildConfig := { sourceDir := .ofString "/g", outputDir := .ofString "/o" }

def atRoot : Environment := { current := .root, searchPath := [] }

/-- A tool that changes the files like this when it is made ready, and not when it compiles. -/
def toolThat (change : FileSystem → FileSystem) : Toolchain Unit Unit where
  prepare _ := Job.change fun fs => (change fs, .ok ())
  compile _ _ := return .ok ⟨0, 0⟩

/-- The files without the output directory. -/
def sweep (fs : FileSystem) : FileSystem := fs.removeBelow (.ofNames [.ofString "o"])

theorem runs_bare (change : FileSystem → FileSystem)
    (hfind : (change bare).find .root (.ofString "/g") true = .ok (.ofNames [.ofString "g"], .directory))
    (hc : (change bare).children (.ofNames [.ofString "g"]) = []) :
    Runs atRoot (toolThat change) (.begun bareConfig) bare (idleOrder bareConfig) (.ended (.ok .noGrammars))
      (change bare) := by
  have hmake : bare.makeDirectories .root bareConfig.outputDir = (bare, .ok ()) := by cbv
  have hdir : (change bare).isDirectory .root (.ofString "/g") = true := by rw [FileSystem.isDirectory, hfind]
  have hwalk : (change bare).walk .root (.ofString "/g") = .ok [] := by
    rw [FileSystem.walk_of_directory hfind, FileSystem.walkFrom_eq, if_neg (by decide), hc]
    rfl
  have hscan : (Filter.ofConfig bareConfig).scan (change bare) .root (.ofString "/g") = .ok [] := by
    have hnone : (Filter.ofConfig bareConfig).wanted [] = [] := rfl
    rw [Filter.scan_of_walk hwalk, hnone, List.mergeSort_nil]
  exact .step (.resolve rfl) <| .step (.makeOutput hmake) <| .step (.prepare rfl) <|
    .step (.inspect hdir) <| .step (.discover hscan) <| .step (.registerNothing rfl) .done

theorem not_idleOrder_prefix (c c' : BuildConfig) (batch : Batch) : ¬ idleOrder c <+: order c' batch := by
  rintro ⟨rest, h⟩
  have h5 : (order c' batch)[5]? = (idleOrder c)[5]? := by
    rw [← h]
    rfl
  cases h5

/-- The output directory is registered although nothing was compiled, so these steps are not the first ones
of the order; and by then the tool may have taken the directory away. -/
theorem run_bare_out_of_order :
    ((run atRoot (toolThat id) bareConfig).run (.start bare)).2.registered = [.ofString "/o"] ∧
    (∀ batch, .compile batch ∉ ((run atRoot (toolThat id) bareConfig).run (.start bare)).2.steps) ∧
    (∀ c batch, ¬ ((run atRoot (toolThat id) bareConfig).run (.start bare)).2.steps <+: order c batch) ∧
    ((run atRoot (toolThat sweep) bareConfig).run (.start bare)).2.registered = [.ofString "/o"] ∧
    ((run atRoot (toolThat sweep) bareConfig).run (.start bare)).2.files.isDirectory .root (.ofString "/o") =
      false := by
  obtain ⟨-, hs, -⟩ := run_of_runs (runs_bare id (by cbv) (by decide))
  obtain ⟨-, hs', hf'⟩ := run_of_runs (runs_bare sweep (by cbv) (by decide))
  rw [Course.registered_eq, Course.registered_eq, hs, hs', hf']
  refine ⟨rfl, fun batch => ?_, fun c batch => not_idleOrder_prefix bareConfig c batch, rfl, by cbv⟩
  simp [idleOrder]

theorem not_takenAway_id {c₀ : BuildConfig} {p : Path} : ¬ TakenAway atRoot (toolThat id) c₀ fs₀ steps p := by
  rintro ⟨before, a, after, s, fs, s', fs', -, -, h, ha, hd, hd'⟩
  have hsame : fs' = fs := by
    cases h with
    | prepare h | compile _ h _ | compileFindsErrors _ h _ =>
      cases h
      rfl
    | prepareFails h | compileFails _ h => cases h
    | _ => cases ha
  rw [hsame, hd] at hd'
  cases hd'

/-- A tool that changes nothing leaves the directory there, and one that sweeps it away is found out. -/
theorem orderly_run_bare :
    ((run atRoot (toolThat id) bareConfig).run (.start bare)).1 = .ok .noGrammars ∧
    ((run atRoot (toolThat id) bareConfig).run (.start bare)).2.registered = [.ofString "/o"] ∧
    ((run atRoot (toolThat id) bareConfig).run (.start bare)).2.files.isDirectory .root (.ofString "/o") = true ∧
    ((run atRoot (toolThat sweep) bareConfig).run (.start bare)).1 = .ok .noGrammars ∧
    ((run atRoot (toolThat sweep) bareConfig).run (.start bare)).2.registered = [.ofString "/o"] ∧
    TakenAway atRoot (toolThat sweep) bareConfig bare ((idleOrder bareConfig).take 5) (.ofString "/o") := by
  obtain ⟨hx, -, -⟩ := run_of_runs (runs_bare id (by cbv) (by decide))
  obtain ⟨hx', hs', hf'⟩ := run_of_runs (runs_bare sweep (by cbv) (by decide))
  have hgone : (sweep bare).isDirectory .root (.ofString "/o") = false := by cbv
  obtain ⟨c, before, s, hc, -, hregistered, -, -, hdir⟩ :=
    (orderly_run atRoot (toolThat id) bareConfig bare).registered (Or.inl hx)
  obtain ⟨c', before', s', hc', hsteps', hregistered', -, -, hdir'⟩ :=
    (orderly_run atRoot (toolThat sweep) bareConfig bare).registered (Or.inl hx')
  obtain rfl : bareConfig = c := Except.ok.inj hc
  obtain rfl : bareConfig = c' := Except.ok.inj hc'
  rw [hs'] at hsteps'
  obtain rfl : (idleOrder bareConfig).take 5 = before' := by simpa [idleOrder] using congrArg List.dropLast hsteps'
  refine ⟨hx, hregistered, hdir.resolve_right not_takenAway_id, hx', hregistered', hdir'.resolve_left ?_⟩
  rw [hf']
  exact Bool.eq_false_iff.1 hgone

end Pass

end GrammarBatch
