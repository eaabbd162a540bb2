import GrammarBatch.Proofs.CommandLine.Essentials
import GrammarBatch.Proofs.Pass.Order
import GrammarBatch.Proofs.Program.Preview
import Mathlib

/-!
# What a build prints and how it ends

Whoever calls a build reads its exit status and what it prints on standard output: the output directory once it
is registered, and nothing else. How much is logged shows on standard error alone.

* `Pass.registered_run`: what a pass registers;
* `Program.build_reports`, `Program.perform_build_tells`: what is told of a build, and how it ends;
* `Program.perform_build_limit`: it is the same but for the log, whatever is logged;
* **`Program.build_tells`**: what a build comes to on every way out, whatever is asked to be logged.
-/

namespace GrammarBatch

variable {ε : Type}

/-- Whether the output directory is registered. -/
def Outcome.registers : Outcome → Bool
  | noSources _ => false
  | noGrammars | compiled _ _ => true

namespace Pass

/-- A pass registers the output directory as its last step, or nothing. -/
theorem registered_run {τ : Type} (tools : Toolchain τ ε) {env : Environment} {c c' : BuildConfig}
    {fs : FileSystem} (hc : c.absolute (fs.pathOf? env.current) = .ok c') :
    ((run env tools c).run (.start fs)).2.registered =
      match ((run env tools c).run (.start fs)).1 with
      | .ok o => if o.registers then [c'.outputDir] else []
      | .error _ => [] := by
  have hrun := runs_run env tools c fs
  generalize ((run env tools c).run (.start fs)).1 = x at hrun ⊢
  generalize ((run env tools c).run (.start fs)).2 = course at hrun ⊢
  obtain ⟨before, a, s, fs₁, hsteps, hr, ht⟩ := hrun.exists_last
  have hk := known_of_runs hr
  rw [Course.registered_eq, hsteps, List.filterMap_append, registered_before ht hk, List.nil_append]
  generalize course.files = files at ht
  cases ht with
  | @registerNothing c₁ =>
    obtain rfl : c₁ = c' := Except.ok.inj (hk.2.1.symm.trans hc)
    rfl
  | @register c₁ =>
    obtain rfl : c₁ = c' := Except.ok.inj (hk.2.1.symm.trans hc)
    rfl
  | _ => rfl

end Pass

theorem withCauses_newline (message : String) (causes : List String) :
    withCauses message causes ++ "\n" =
      "error: " ++ message ++ "\n" ++
        String.join (causes.map fun cause => "  caused by: " ++ cause ++ "\n") := by
  have hjoin : String.join (causes.map ("\n  caused by: " ++ ·)) ++ "\n" =
      "\n" ++ String.join (causes.map fun cause => "  caused by: " ++ cause ++ "\n") := by
    induction causes with
    | nil => rfl
    | cons cause causes ih =>
      rw [List.map_cons, List.map_cons, String.join_cons, String.join_cons, String.append_assoc, ih]
      simp only [← String.append_assoc]
      rfl
  rw [withCauses, String.append_assoc, hjoin, ← String.append_assoc]

/-- Nothing is printed, and after the log the error is told, and each of its causes on a line of its own. -/
structure Report.Fails (r : Report) (limit : Log.Limit) (message : String) (causes : List String) : Prop where
  status : r.status = 1
  stdout : r.stdout = ""
  stderr : r.stderr = String.join ((r.course.logs limit).map Program.logLine) ++
    ("error: " ++ message ++ "\n" ++ String.join (causes.map fun cause => "  caused by: " ++ cause ++ "\n"))

namespace Program

open CommandLine

variable {tools : ToolCommand → Toolchain ToolCall ε} {env : Environment} {fs : FileSystem} {limit : Log.Limit}
  {argv : List Bytes} {i : Invocation} {config : Option Path} {o : Overrides}

/-! ## The report -/

theorem fails_report (course : Course ToolCall) (message : String) (causes : List String) :
    (report limit course "" (some (withCauses message causes))).Fails limit message causes where
  status := rfl
  stdout := rfl
  stderr := by rw [← withCauses_newline]; rfl

/-- A build reports how its pass ended, and prints what it registered. -/
theorem build_reports (tools : Toolchain ToolCall ε) (env : Environment) (limit : Log.Limit) {c : BuildConfig}
    {fs : FileSystem} (habs : c.absolute (fs.pathOf? env.current) = .ok c) :
    match ((Pass.run env tools c).run (.start fs)).1 with
    | .error e => (build tools env limit c fs).Fails limit e.message e.causes
    | .ok outcome => (build tools env limit c fs).status = 0 ∧
      (build tools env limit c fs).stdout = if outcome.registers then c.outputDir.display ++ "\n" else "" := by
  have hregistered := Pass.registered_run tools habs
  rw [build]
  cases hpass : (Pass.run env tools c).run (.start fs) with
  | mk x course =>
    rw [hpass] at hregistered
    dsimp only at hregistered ⊢
    rw [hregistered]
    cases x with
    | error e => exact fails_report _ _ _
    | ok outcome =>
      refine ⟨rfl, ?_⟩
      dsimp only
      split_ifs <;> simp [report]

/-- Whatever is logged, the same is done and printed. -/
theorem build_limit (tools : Toolchain ToolCall ε) (env : Environment) (limit limit' : Log.Limit)
    (c : BuildConfig) (fs : FileSystem) :
    (build tools env limit' c fs).status = (build tools env limit c fs).status ∧
    (build tools env limit' c fs).stdout = (build tools env limit c fs).stdout ∧
    (build tools env limit' c fs).course = (build tools env limit c fs).course := by
  unfold build
  rcases (Pass.run env tools c).run (.start fs) with ⟨_ | _, course⟩ <;> exact ⟨rfl, rfl, rfl⟩

theorem perform_build_limit (tools : ToolCommand → Toolchain ToolCall ε) (env : Environment) {i i' : Invocation}
    (fs : FileSystem) (h : i.task = .build config o) (h' : i'.task = .build config o) :
    (perform tools env i' fs).status = (perform tools env i fs).status ∧
    (perform tools env i' fs).stdout = (perform tools env i fs).stdout ∧
    (perform tools env i' fs).course = (perform tools env i fs).course := by
  simp only [perform, h, h', Task.config, Task.overrides]
  cases BuildConfig.prepare fs env.current config o with
  | error e => exact ⟨rfl, rfl, rfl⟩
  | ok c => exact build_limit (tools c.tool) env _ _ c fs

theorem perform_build_tells (tools : ToolCommand → Toolchain ToolCall ε) (env : Environment) (fs : FileSystem)
    (h : i.task = .build config o) :
    let r := perform tools env i fs
    let limit := Log.Limit.ofVerbosity i.verbosity i.quiet
    match BuildConfig.prepare fs env.current config o with
    | .error e => r.Fails limit e.message e.causes
    | .ok c => c.outputDir.isAbsolute = true ∧
      match ((Pass.run env (tools c.tool) c).run (.start fs)).1 with
      | .error e => r.Fails limit e.message e.causes
      | .ok outcome => r.status = 0 ∧
        r.stdout = if outcome.registers then c.outputDir.display ++ "\n" else "" := by
  simp only [perform, h, Task.config, Task.overrides]
  cases hc : BuildConfig.prepare fs env.current config o with
  | error e => exact fails_report _ _ _
  | ok c =>
    have habs := absolute_of_prepare hc
    exact ⟨BuildConfig.isAbsolute_outputDir habs, build_reports (tools c.tool) env _ habs⟩

theorem status_perform_build_eq_zero_iff (h : i.task = .build config o) :
    (perform tools env i fs).status = 0 ↔
      ∃ c outcome, BuildConfig.prepare fs env.current config o = .ok c ∧
        ((Pass.run env (tools c.tool) c).run (.start fs)).1 = .ok outcome := by
  have htells := perform_build_tells tools env fs h
  cases hc : BuildConfig.prepare fs env.current config o with
  | error e =>
    rw [hc] at htells
    simp [htells.status]
  | ok c =>
    rw [hc] at htells
    dsimp only at htells
    cases hp : ((Pass.run env (tools c.tool) c).run (.start fs)).1 with
    | error e =>
      rw [hp] at htells
      simp [htells.2.status, hp]
    | ok outcome =>
      rw [hp] at htells
      simp [htells.2.1, hp]

/-- **A build ends with the exit status 0 exactly where it gets its configuration and its pass goes well. Then it
prints the output directory, spelled out, unless there is no source directory, and otherwise nothing. A failure
is told after the log, with its causes. With more flags on verbosity, or fewer, the same is done and printed, with
the same files and the same calls of the tool. All of this holds of any tool, and so of the command itself.** -/
theorem build_tells (tools : ToolCommand → Toolchain ToolCall ε) (env : Environment) (fs : FileSystem)
    (h : Invocation.ofArguments argv = .ok i) (htask : i.task = .build config o) :
    let r := runWith tools env argv fs
    let limit := Log.Limit.ofVerbosity i.verbosity i.quiet
    runWith (commandToolchain env) env argv fs = run env argv fs ∧
    (match BuildConfig.prepare fs env.current config o with
    | .error e => r.Fails limit e.message e.causes
    | .ok c => c.outputDir.isAbsolute = true ∧
      match ((Pass.run env (tools c.tool) c).run (.start fs)).1 with
      | .error e => r.Fails limit e.message e.causes
      | .ok outcome => r.status = 0 ∧
        r.stdout = if outcome.registers then c.outputDir.display ++ "\n" else "") ∧
    (r.status = 0 ↔ ∃ c outcome, BuildConfig.prepare fs env.current config o = .ok c ∧
      ((Pass.run env (tools c.tool) c).run (.start fs)).1 = .ok outcome) ∧
    ∀ argv' i', Invocation.ofArguments argv' = .ok i' →
      Invocation.essentials argv' = Invocation.essentials argv →
      let r' := runWith tools env argv' fs
      r'.status = r.status ∧ r'.stdout = r.stdout ∧ r'.course = r.course := by
  intro r limit
  have hr : r = perform tools env i fs := runWith_eq_perform tools h
  have htells := perform_build_tells tools env fs htask
  rw [← hr] at htells
  refine ⟨rfl, htells, ?_, fun argv' i' h' hsame => ?_⟩
  · rw [hr]
    exact status_perform_build_eq_zero_iff htask
  · have hsame' := Invocation.ofArguments_essentials h'
    rw [hsame, Invocation.ofArguments_essentials h] at hsame'
    have htask' : i'.task = .build config o := by
      rw [← htask]
      exact (congrArg Invocation.task (Except.ok.inj hsame')).symm
    intro r'
    rw [show r' = _ from runWith_eq_perform tools h', hr]
    exact perform_build_limit tools env fs htask htask'

/-! ## A build that tells much -/

/-- A tool that is always ready, compiles anything, and notes the arguments that it is given. -/
def notingTool (_ : ToolCommand) : Toolchain ToolCall Binding where
  prepare binding := return .ok binding
  compile binding batch := do
    Job.emit (.tool ⟨.root, .root, binding.arguments batch⟩)
    return .ok ⟨0, 0⟩

def tellingMuch : List Bytes := ["grist", "-v", "build", "-vvi", "P.g", "--no-default-excludes"].map Utf8.encode

theorem ofArguments_tellingMuch :
    Invocation.ofArguments tellingMuch = .ok ⟨2, false, .build none usualOverrides⟩ := by
  rw [← toOption_eq_some]
  decide +kernel

theorem essentials_tellingMuch : Invocation.essentials tellingMuch =
    Invocation.commandLine (Utf8.encode "grist") .build usualArguments := by
  decide +kernel

theorem pass_usual :
    ((Pass.run usualEnvironment (notingTool usualConfig.tool) usualConfig).run (.start usual)).1 =
      .ok (.compiled [⟨[], .ofString "P.g"⟩] 0) := by
  have hd : usual.isDirectory .root usualConfig.sourceDir = true := by cbv
  have ho : usual.isDirectory .root usualConfig.outputDir = true := by cbv
  have hscan := grammars_usual
  rw [BuildConfig.grammars, usualEnvironment, if_pos hd] at hscan
  have hmake := FileSystem.makeDirectories_of_isDirectory ho
  have hcompile (batch : Batch) :
      ((notingTool usualConfig.tool).compile (.ofConfig usualConfig) batch).run (.start usual) =
        (.ok ⟨0, 0⟩, ⟨usual, [.tool ⟨.root, .root, (Binding.ofConfig usualConfig).arguments batch⟩]⟩) := rfl
  have hlast (batch : Batch) (hb : batch.grammars ≠ []) :
      Pass.Runs usualEnvironment (notingTool usualConfig.tool)
        (.gathered usualConfig (.ofConfig usualConfig) batch) usual
        [.compile batch, .register usualConfig.outputDir] (.ended (.ok (.compiled batch.grammars 0))) usual :=
    .step (.compile hb (hcompile batch) rfl) (.step .register .done)
  exact (Pass.run_of_runs (.step (.resolve (absolute_of_prepare prepare_usual)) (.step (.makeOutput hmake)
    (.step (.prepare rfl) (.step (.inspect hd) (.step (.discover hscan) (hlast _ (List.cons_ne_nil _ _)))))))).1

/-- However much is told, the output directory is printed, and nothing else. -/
theorem build_tells_usual :
    Invocation.ofArguments tellingMuch = .ok ⟨2, false, .build none usualOverrides⟩ ∧
    (runWith notingTool usualEnvironment tellingMuch usual).status = 0 ∧
    (runWith notingTool usualEnvironment tellingMuch usual).stdout =
      "/target/generated-sources/grammars\n" ∧
    (runWith notingTool usualEnvironment (Invocation.commandLine (Utf8.encode "grist") .build usualArguments)
      usual).stdout = "/target/generated-sources/grammars\n" := by
  obtain ⟨-, htells, -, hsame⟩ := build_tells notingTool usualEnvironment usual ofArguments_tellingMuch rfl
  have hplain := Invocation.ofArguments_essentials ofArguments_tellingMuch
  have hess : Invocation.essentials (Invocation.essentials tellingMuch) = Invocation.essentials tellingMuch := by
    decide +kernel
  obtain ⟨-, hstdout, -⟩ := hsame _ _ hplain hess
  rw [prepare_usual] at htells
  dsimp only at htells
  rw [pass_usual] at htells
  obtain ⟨-, hstatus, hprinted⟩ := htells
  have hdisplay : usualConfig.outputDir.display = "/target/generated-sources/grammars" := by decide +kernel
  have hout : (runWith notingTool usualEnvironment tellingMuch usual).stdout =
      "/target/generated-sources/grammars\n" := by
    rw [hprinted, hdisplay]
    rfl
  rw [essentials_tellingMuch] at hstdout
  exact ⟨ofArguments_tellingMuch, hstatus, hout, hstdout.trans hout⟩

end Program

end GrammarBatch
