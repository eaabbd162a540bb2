import GrammarBatch.Proofs.Discovery.Scan
import GrammarBatch.Proofs.Pass.Stages
import GrammarBatch.Proofs.Text.Lines
import GrammarBatch.Tool.Command

/-!
# What a run of the tool counts for

* `Behaviour.Prints`, `Diagnostic.number`: the lines that a program printed, and how many of them are errors
  or warnings;
* `CommandEngine.run_compile`: compiling tells every line that is not blank, once and in order, and ends with
  the verdict on them;
* **`Pass.verdict_counts`**: the number of errors and the ending decide how compiling ends, and with it the
  whole pass.
-/

namespace GrammarBatch

/-! ## Counting lines -/

/-- The program printed these lines on standard output and on standard error, each of the two read on its
own. -/
def Behaviour.Prints (b : Behaviour) (out err : List (List Char)) : Prop :=
  Text.CutInto (Utf8.lossy .rest b.stdout) out ∧ Text.CutInto (Utf8.lossy .rest b.stderr) err

namespace Diagnostic

/-- How many lines are of the kind; blank ones do not count. -/
def number (kind : Kind) (lines : List (List Char)) : Nat :=
  lines.countP fun line => !Text.isBlankLine line && classify line = kind

/-- The lines that are told, each with its kind. -/
def told (lines : List (List Char)) : List Diagnostic :=
  (lines.filter (!Text.isBlankLine ·)).map fun line => ⟨classify line, line⟩

theorem told_append (a b : List (List Char)) : told (a ++ b) = told a ++ told b := by
  simp [told]

theorem countP_told (kind : Kind) (lines : List (List Char)) :
    (told lines).countP (·.kind = kind) = number kind lines := by
  rw [told, List.countP_map, List.countP_filter, number]
  congr 1
  funext line
  simp [Bool.and_comm]

theorem tally_told (lines : List (List Char)) :
    Tally.of (told lines) = ⟨number .error lines, number .warning lines⟩ := by
  rw [Tally.of, countP_told, countP_told]

end Diagnostic

namespace Job

variable {τ α : Type}

theorem run_emit (e : Event τ) (course : Course τ) :
    (Job.emit e).run course = ((), { course with events := course.events ++ [e] }) := rfl

theorem run_forIn_emit (l : List α) (f : α → Event τ) (course : Course τ) :
    (forIn l PUnit.unit fun a _ => do Job.emit (f a); pure (.yield PUnit.unit) : Job τ PUnit).run course =
      (PUnit.unit, { course with events := course.events ++ l.map f }) := by
  induction l generalizing course with
  | nil =>
    rw [List.map_nil, List.append_nil]
    rfl
  | cons a l ih =>
    rw [List.forIn_cons]
    have hstep := ih { course with events := course.events ++ [f a] }
    rw [List.append_assoc, List.singleton_append] at hstep
    exact hstep

end Job

namespace CommandEngine

open Diagnostic

variable {env : Environment} {engine : CommandEngine} {batch : Batch} {course : Course ToolCall}
  {call : ToolCall} {b : Behaviour} {out err : List (List Char)}

/-- The arguments that the program is started with. -/
def arguments (engine : CommandEngine) (batch : Batch) : List Bytes :=
  engine.args.map Utf8.encode ++ engine.binding.arguments batch

theorem linesOf_eq (h : b.Prints out err) : linesOf b = told (out ++ err) := by
  obtain ⟨ho, he⟩ := h
  rw [Text.cutInto_iff] at ho he
  rw [told_append, ho, he]
  rfl

theorem verdict_eq (h : b.Prints out err) : engine.verdict b =
    if b.ending = .exit 0 ∨ 0 < number .error (out ++ err) then
      .ok ⟨number .error (out ++ err), number .warning (out ++ err)⟩
    else .error (.failed engine.program.display b.ending) := by
  rw [verdict, linesOf_eq h, tally_told]
  by_cases hs : b.ending = .exit 0
  · simp [hs, Ending.isSuccess]
  · by_cases hn : number .error (out ++ err) = 0
    · simp [hs, hn, Ending.isSuccess, Tally.isSuccess]
    · simp [hs, hn, Ending.isSuccess, Tally.isSuccess, Nat.pos_iff_ne_zero]

/-- A program that is started leaves its call and a record of every line that is not blank, and the verdict
on the lines is the result. -/
theorem run_compile
    (h : env.start course.files engine.program (engine.arguments batch) batch.inputDir = .ok (call, b))
    (hp : b.Prints out err) :
    (engine.compile env batch).run course = (engine.verdict b, { course with
      events := course.events ++ .log ⟨.debug, engine.announcement batch⟩ :: .tool call ::
        (told (out ++ err)).map fun d => .log d.record }) := by
  have hevents (x y : Event ToolCall) (l : List (Event ToolCall)) :
      course.events ++ [x] ++ [y] ++ l = course.events ++ x :: y :: l := by simp
  rw [compile, Job.run_bind, Job.log, Job.run_emit, Job.run_bind, Job.run_files]
  dsimp only
  rw [← arguments, h]
  dsimp only
  rw [Job.run_bind, Job.run_emit, Job.run_bind, Job.run_forIn_emit, linesOf_eq hp, hevents]
  rfl

end CommandEngine

namespace Pass

open Diagnostic

variable {env : Environment} {command : ToolCommand} {engine : CommandEngine} {batch : Batch}
  {c c₀ : BuildConfig} {fs fs₀ : FileSystem} {before : List Step} {call : ToolCall} {b : Behaviour}
  {out err : List (List Char)}

/-- Where a pass comes to compiling with a program that can be started, the verdict on what the program
printed is the end of the pass. -/
theorem run_of_verdict
    (hr : Runs env (commandToolchain env command) (.begun c₀) fs₀ before (.gathered c engine batch) fs)
    (hb : batch.grammars ≠ [])
    (h : env.start fs engine.program (engine.arguments batch) batch.inputDir = .ok (call, b)) :
    ((run env (commandToolchain env command) c₀).run (.start fs₀)).1 =
      match engine.verdict b with
      | .error cause => .error (.toolRun cause)
      | .ok tally =>
        if tally.errors = 0 then .ok (.compiled batch.grammars tally.warnings)
        else .error (.grammarErrors tally.errors) := by
  have hc : (engine.compile env batch).run (.start fs) = _ :=
    CommandEngine.run_compile h ⟨Text.cutInto_lines _, Text.cutInto_lines _⟩
  cases hv : engine.verdict b with
  | error cause =>
    rw [hv] at hc
    exact (run_of_runs (hr.trans (.step (.compileFails hb hc) .done))).1
  | ok tally =>
    rw [hv] at hc
    by_cases ht : tally.errors = 0
    · have hs : tally.isSuccess = true := by simp [Tally.isSuccess, ht]
      rw [(run_of_runs (hr.trans (.step (.compile hb hc hs) (.step .register .done)))).1]
      simp [ht]
    · have hs : tally.isSuccess = false := by simp [Tally.isSuccess, ht]
      rw [(run_of_runs (hr.trans (.step (.compileFindsErrors hb hc hs) .done))).1]
      simp [ht]

/-- **Every line that is not blank is told, and the lines that are errors or warnings and the ending of the
program decide how compiling ends: with their numbers, unless the program failed without any error. So a pass
ends well exactly where the program does and reports no error, with the errors where it reports some however it
ends, and with the failure of the tool otherwise.** -/
theorem verdict_counts (env : Environment) (engine : CommandEngine) (batch : Batch) :
    (∀ (course : Course ToolCall) (call : ToolCall) (b : Behaviour),
      env.start course.files engine.program (engine.arguments batch) batch.inputDir = .ok (call, b) →
      ∃ out err, b.Prints out err ∧ (engine.compile env batch).run course =
        (if b.ending = .exit 0 ∨ 0 < number .error (out ++ err) then
          .ok ⟨number .error (out ++ err), number .warning (out ++ err)⟩
        else .error (.failed engine.program.display b.ending),
        { course with
          events := course.events ++ .log ⟨.debug, engine.announcement batch⟩ :: .tool call ::
            (told (out ++ err)).map fun d => .log d.record })) ∧
    ∀ (command : ToolCommand) (c₀ c : BuildConfig) (fs₀ fs : FileSystem) (before : List Step)
      (call : ToolCall) (b : Behaviour),
      Runs env (commandToolchain env command) (.begun c₀) fs₀ before (.gathered c engine batch) fs →
      batch.grammars ≠ [] →
      env.start fs engine.program (engine.arguments batch) batch.inputDir = .ok (call, b) →
      ∃ out err, b.Prints out err ∧
        (∀ grammars warnings,
          ((run env (commandToolchain env command) c₀).run (.start fs₀)).1 =
              .ok (.compiled grammars warnings) ↔
            (b.ending = .exit 0 ∧ number .error (out ++ err) = 0) ∧
              grammars = batch.grammars ∧ warnings = number .warning (out ++ err)) ∧
        (∀ count,
          ((run env (commandToolchain env command) c₀).run (.start fs₀)).1 = .error (.grammarErrors count) ↔
            0 < number .error (out ++ err) ∧ count = number .error (out ++ err)) ∧
        ∀ cause,
          ((run env (commandToolchain env command) c₀).run (.start fs₀)).1 = .error (.toolRun cause) ↔
            (b.ending ≠ .exit 0 ∧ number .error (out ++ err) = 0) ∧
              cause = .failed engine.program.display b.ending := by
  constructor
  · intro course call b h
    have hp : b.Prints _ _ := ⟨Text.cutInto_lines _, Text.cutInto_lines _⟩
    exact ⟨_, _, hp, by rw [CommandEngine.run_compile h hp, CommandEngine.verdict_eq hp]⟩
  · intro command c₀ c fs₀ fs before call b hr hb h
    have hp : b.Prints _ _ := ⟨Text.cutInto_lines _, Text.cutInto_lines _⟩
    refine ⟨_, _, hp, ?_⟩
    rw [run_of_verdict hr hb h, CommandEngine.verdict_eq hp]
    generalize number .error _ = errors
    generalize number .warning _ = warnings
    by_cases hs : b.ending = .exit 0 <;> by_cases hn : errors = 0 <;>
      simp [hs, hn, Nat.pos_iff_ne_zero, eq_comm]

/-! ## A tool that prints on both streams -/

/-- The last line on standard output has no end, and an error follows on standard error. -/
def noise : Behaviour where
  stdout := Utf8.encode "warning(1): w\r\n \nnote"
  stderr := Utf8.encode "error(2): e"

/-- A source directory with one grammar, an output directory, and the tool. -/
def noisy : FileSystem where
  entries :=
    [(.ofNames [.ofString "in"], .directory), (.ofNames [.ofString "out"], .directory),
      (.ofNames [.ofString "N.g", .ofString "in"], .file ⟨[], false, none⟩),
      (.ofNames [.ofString "t"], .file ⟨[], true, some noise⟩)]
  nodup := by decide

def noisyConfig : BuildConfig where
  sourceDir := .ofString "/in"
  outputDir := .ofString "/out"
  includes := .ofList ["N.g"]
  defaultExcludes := false
  tool := { program := "/t" }

def noisyEngine : CommandEngine := ⟨.ofString "/t", [], .ofConfig noisyConfig⟩

def noisyBatch : Batch := ⟨.ofString "/in", true, [⟨[], .ofString "N.g"⟩]⟩

def noisyEnvironment : Environment := { current := .root, searchPath := [] }

theorem scan_noisy : (Filter.ofConfig noisyConfig).scan noisy .root (.ofString "/in") =
    .ok [⟨[], .ofString "N.g"⟩] := by
  have hfind : noisy.find .root (.ofString "/in") true = .ok (.ofNames [.ofString "in"], .directory) := by cbv
  have hc : noisy.children (.ofNames [.ofString "in"]) = [(.ofString "N.g", .file ⟨[], false, none⟩)] := by
    decide
  have hwalk : noisy.walk .root (.ofString "/in") = .ok [[.ofString "N.g"]] := by
    rw [FileSystem.walk_of_directory hfind, FileSystem.walkFrom_eq, if_neg (by decide), hc]
    rfl
  have hwanted : (Filter.ofConfig noisyConfig).wanted [[.ofString "N.g"]] = [⟨[], .ofString "N.g"⟩] := by
    decide +kernel
  rw [Filter.scan_of_walk hwalk, hwanted, List.mergeSort_singleton]

theorem runs_noisy : Runs noisyEnvironment (commandToolchain noisyEnvironment noisyConfig.tool)
    (.begun noisyConfig) noisy
    [.resolve, .makeOutput noisyConfig.outputDir, .prepare (.ofConfig noisyConfig),
      .inspect noisyConfig.sourceDir, .discover noisyConfig.sourceDir]
    (.gathered noisyConfig noisyEngine noisyBatch) noisy := by
  have hmake : noisy.makeDirectories .root noisyConfig.outputDir = (noisy, .ok ()) := by cbv
  have hdir : noisy.isDirectory .root noisyConfig.sourceDir = true := by cbv
  have htool : noisyEnvironment.findProgram noisy "/t" = some (.ofString "/t") := by cbv
  have hprepare : ((commandToolchain noisyEnvironment noisyConfig.tool).prepare (.ofConfig noisyConfig)).run
      (.start noisy) = (.ok noisyEngine, ⟨noisy, [.log ⟨.debug, "grammar tool resolved to /t"⟩]⟩) := by
    cbv
  exact .step (.resolve rfl) <| .step (.makeOutput hmake) <| .step (.prepare hprepare) <|
    .step (.inspect hdir) <| .step (.discover scan_noisy) .done

theorem start_noisy (args : List Bytes) (hzero : ∀ arg ∈ args, 0 ∉ arg)
    (hroom : FileSystem.canTake (.ofString "/t") args = true) :
    noisyEnvironment.start noisy (.ofString "/t") args (.ofString "/in") =
      .ok (⟨.ofNames [.ofString "t"], .ofNames [.ofString "in"], args⟩, noise) := by
  have hdir : noisy.find .root (.ofString "/in") true = .ok (.ofNames [.ofString "in"], .directory) := by cbv
  have hfile : noisy.find (.ofNames [.ofString "in"]) (.ofString "/t") true =
      .ok (.ofNames [.ofString "t"], .file ⟨[], true, some noise⟩) := by cbv
  have hscript : Interpreter.ofScript? [] = none := by decide +kernel
  have hpath : 0 ∉ (Path.ofString "/t").bytes ∧ slash ∈ (Path.ofString "/t").bytes ∧
      0 ∉ (Path.ofString "/in").bytes := by decide
  have hargs : ¬ ∃ arg ∈ args, 0 ∈ arg := by
    rintro ⟨arg, ha, h⟩
    exact hzero arg ha h
  simp [Environment.start, FileSystem.execute, FileSystem.executeWithin, FileSystem.maxChain, noisyEnvironment,
    hdir, hfile, hscript, hpath, hargs, hroom]

theorem number_noise {out err : List (List Char)} (h : noise.Prints out err) :
    number .error (out ++ err) = 1 ∧ number .warning (out ++ err) = 1 := by
  obtain ⟨ho, he⟩ := h
  rw [Text.cutInto_iff] at ho he
  rw [ho, he]
  decide +kernel

/-- The tool ends as if all were well, but the error that it reports fails the pass. -/
theorem verdict_counts_noisy :
    (∃ call, noisyEnvironment.start noisy noisyEngine.program (noisyEngine.arguments noisyBatch)
      noisyBatch.inputDir = .ok (call, noise)) ∧
    noisyBatch.grammars ≠ [] ∧ noise.ending = .exit 0 ∧
    ((noisyEngine.compile noisyEnvironment noisyBatch).run (.start noisy)).1 = .ok ⟨1, 1⟩ ∧
    ((run noisyEnvironment (commandToolchain noisyEnvironment noisyConfig.tool) noisyConfig).run
      (.start noisy)).1 = .error (.grammarErrors 1) := by
  have hstart : noisyEnvironment.start noisy noisyEngine.program (noisyEngine.arguments noisyBatch)
      noisyBatch.inputDir = .ok (⟨.ofNames [.ofString "t"], .ofNames [.ofString "in"],
        noisyEngine.arguments noisyBatch⟩, noise) :=
    start_noisy _ (by decide +kernel) (by decide +kernel)
  have hb : noisyBatch.grammars ≠ [] := List.cons_ne_nil _ _
  obtain ⟨hcompile, hrun⟩ := verdict_counts noisyEnvironment noisyEngine noisyBatch
  refine ⟨⟨_, hstart⟩, hb, rfl, ?_, ?_⟩
  · obtain ⟨out, err, hp, h⟩ := hcompile (.start noisy) _ noise hstart
    obtain ⟨he, hw⟩ := number_noise hp
    rw [h, he, hw]
    rfl
  · obtain ⟨out, err, hp, -, h, -⟩ := hrun _ _ _ _ _ _ _ noise runs_noisy hb hstart
    obtain ⟨he, -⟩ := number_noise hp
    exact (h 1).2 (by simp [he])

end Pass

end GrammarBatch
