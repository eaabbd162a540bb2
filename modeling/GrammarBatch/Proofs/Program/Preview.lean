import GrammarBatch.Program
import GrammarBatch.Proofs.CommandLine.Scopes
import GrammarBatch.Proofs.Config.SpelledOut
import GrammarBatch.Proofs.Discovery.Scan
import GrammarBatch.Proofs.Files.Folders
import GrammarBatch.Proofs.Pass.Stages

/-!
# A scan shows what a build would compile

* `Course.batches`: the batches that a tool was handed;
* `Pass.run_of_prepare`, `Pass.run_of_prepareFails`: what a pass does with the grammars that are there, if the
  output directory is there already;
* **`Program.scan_previews_build`**: a scan and a build with the same arguments agree.
-/

namespace GrammarBatch

open CommandLine

/-- The batch that a step hands to the tool. -/
def Step.batch? : Step → Option Batch
  | .compile batch => some batch
  | _ => none

/-- The batches handed to the tool. -/
def Course.batches {τ : Type} (course : Course τ) : List Batch := course.steps.filterMap Step.batch?

/-- The grammars of a configuration; a source directory that is not there has none. -/
def BuildConfig.grammars (env : Environment) (fs : FileSystem) (c : BuildConfig) :
    Except ScanError (List GrammarPath) :=
  if fs.isDirectory env.current c.sourceDir then (Filter.ofConfig c).scan fs env.current c.sourceDir
  else .ok []

namespace Pass

variable {τ ε : Type} {env : Environment} {tools : Toolchain τ ε} {fs : FileSystem} {c : BuildConfig}
  {engine : ε} {batch : Batch} {found : List GrammarPath}

/-- From its grammars on, a pass hands all of them to the tool at once, or nothing if there are none. -/
theorem exists_runs_of_gathered (env : Environment) (tools : Toolchain τ ε) (fs : FileSystem)
    (c : BuildConfig) (engine : ε) (batch : Batch) : ∃ steps x fs',
      Runs env tools (.gathered c engine batch) fs steps (.ended x) fs' ∧
        steps.filterMap Step.batch? = if batch.grammars = [] then [] else [batch] := by
  by_cases hb : batch.grammars = []
  · rw [if_pos hb]
    exact ⟨_, _, _, .step (.registerNothing hb) .done, rfl⟩
  · rw [if_neg hb]
    cases hc : (tools.compile engine batch).run (.start fs) with
    | mk result course =>
      cases result with
      | error x => exact ⟨_, _, _, .step (.compileFails hb hc) .done, rfl⟩
      | ok tally =>
        cases ht : tally.isSuccess with
        | false => exact ⟨_, _, _, .step (.compileFindsErrors hb hc ht) .done, rfl⟩
        | true => exact ⟨_, _, _, .step (.compile hb hc ht) (.step .register .done), rfl⟩

theorem exists_runs_of_toolReady (env : Environment) (tools : Toolchain τ ε) (fs : FileSystem)
    (c : BuildConfig) (engine : ε) : ∃ steps x fs',
      Runs env tools (.toolReady c engine) fs steps (.ended x) fs' ∧
        match c.grammars env fs with
        | .error e => x = .error (.discovery e) ∧ steps.filterMap Step.batch? = []
        | .ok found =>
          steps.filterMap Step.batch? = if found = [] then [] else [⟨c.sourceDir, true, found⟩] := by
  rw [BuildConfig.grammars]
  cases hd : fs.isDirectory env.current c.sourceDir with
  | false => exact ⟨_, _, _, .step (.inspectNothing hd) .done, rfl⟩
  | true =>
    rw [if_pos rfl]
    cases hs : (Filter.ofConfig c).scan fs env.current c.sourceDir with
    | error e => exact ⟨_, _, _, .step (.inspect hd) (.step (.discoverFails hs) .done), rfl, rfl⟩
    | ok found =>
      obtain ⟨steps, x, fs', hr, hb⟩ :=
        exists_runs_of_gathered env tools fs c engine ⟨c.sourceDir, true, found⟩
      exact ⟨_, _, _, .step (.inspect hd) (.step (.discover hs) hr), hb⟩

theorem files_prepare {command : ToolCommand} {binding : Binding} {result : Except ToolError CommandEngine}
    {course : Course ToolCall}
    (h : ((commandToolchain env command).prepare binding).run (.start fs) = (result, course)) :
    course.files = fs := by
  rw [commandToolchain] at h
  dsimp only at h
  rw [Job.run_bind, Job.run_files] at h
  dsimp only at h
  split at h
  · cases h
    rfl
  · cases h
    rfl

section OutputThere

variable {course : Course ToolCall} (hc : c.absolute (fs.pathOf? env.current) = .ok c)
  (ho : fs.isDirectory env.current c.outputDir = true)

include hc ho

theorem run_of_prepareFails {x : ToolError}
    (hp : ((commandToolchain env c.tool).prepare (.ofConfig c)).run (.start fs) = (.error x, course)) :
    ((run env (commandToolchain env c.tool) c).run (.start fs)).1 = .error (.toolUnavailable x) ∧
      ((run env (commandToolchain env c.tool) c).run (.start fs)).2.batches = [] := by
  have hmake := FileSystem.makeDirectories_of_isDirectory ho
  have hr : Runs env (commandToolchain env c.tool) (.begun c) fs
      [.resolve, .makeOutput c.outputDir, .prepare (.ofConfig c)] (.ended (.error (.toolUnavailable x)))
      course.files :=
    .step (.resolve hc) (.step (.makeOutput hmake) (.step (.prepareFails hp) .done))
  obtain ⟨hx, hsteps, -⟩ := run_of_runs hr
  rw [Course.batches, hsteps]
  exact ⟨hx, rfl⟩

theorem run_of_prepare {engine : CommandEngine}
    (hp : ((commandToolchain env c.tool).prepare (.ofConfig c)).run (.start fs) = (.ok engine, course)) :
    match c.grammars env fs with
    | .error e =>
      ((run env (commandToolchain env c.tool) c).run (.start fs)).1 = .error (.discovery e) ∧
        ((run env (commandToolchain env c.tool) c).run (.start fs)).2.batches = []
    | .ok found =>
      ((run env (commandToolchain env c.tool) c).run (.start fs)).2.batches =
        if found = [] then [] else [⟨c.sourceDir, true, found⟩] := by
  have hmake := FileSystem.makeDirectories_of_isDirectory ho
  have hready : Runs env (commandToolchain env c.tool) (.begun c) fs
      [.resolve, .makeOutput c.outputDir, .prepare (.ofConfig c)] (.toolReady c engine) course.files :=
    .step (.resolve hc) (.step (.makeOutput hmake) (.step (.prepare hp) .done))
  rw [files_prepare hp] at hready
  obtain ⟨steps, x, fs', hr, h⟩ := exists_runs_of_toolReady env (commandToolchain env c.tool) fs c engine
  obtain ⟨hx, hsteps, -⟩ := run_of_runs (hready.trans hr)
  rw [Course.batches, hsteps, List.filterMap_append, hx]
  exact h

end OutputThere

end Pass

namespace Program

variable {ε : Type} {env : Environment} {fs : FileSystem} {c : BuildConfig} {limit : Log.Limit}

/-- A build hands to the tool what the pass does, and tells why the pass fails. -/
theorem build_eq (tools : Toolchain ToolCall ε) (env : Environment) (limit : Log.Limit) (c : BuildConfig)
    (fs : FileSystem) :
    (build tools env limit c fs).course.batches = ((Pass.run env tools c).run (.start fs)).2.batches ∧
      ∀ e, ((Pass.run env tools c).run (.start fs)).1 = .error e →
        (build tools env limit c fs).status = 1 ∧
          ∃ log, (build tools env limit c fs).stderr = log ++ (e.render ++ "\n") := by
  rw [build]
  cases hr : (Pass.run env tools c).run (.start fs) with
  | mk result course =>
    cases result with
    | error x =>
      refine ⟨rfl, fun e he => ?_⟩
      cases he
      exact ⟨rfl, _, rfl⟩
    | ok outcome =>
      have hlog : Course.batches { course with events := course.events ++ [.log (closingRecord outcome)] } =
          course.batches := by
        rw [Course.batches, Course.steps, List.filterMap_append]
        exact congrArg _ (List.append_nil _)
      refine ⟨hlog, fun e he => ?_⟩
      cases he

theorem scan_eq (env : Environment) (limit : Log.Limit) (c : BuildConfig) (fs : FileSystem) :
    match c.grammars env fs with
    | .error _ => (scan env limit c false fs).status = 1
    | .ok found => (scan env limit c false fs).status = 0 ∧ (scan env limit c false fs).stdout =
        String.join (found.map fun g => g.display ++ "\n") := by
  rw [BuildConfig.grammars]
  cases hd : fs.isDirectory env.current c.sourceDir with
  | false => simp [scan, hd, report]
  | true =>
    rw [if_pos rfl]
    cases hs : (Filter.ofConfig c).scan fs env.current c.sourceDir with
    | error e => simp [scan, hd, hs, report]
    | ok found => simp [scan, hd, hs, report, listing]

theorem runWith_eq_perform (tools : ToolCommand → Toolchain ToolCall ε) {argv : List Bytes} {i : Invocation}
    (h : Invocation.ofArguments argv = .ok i) : runWith tools env argv fs = perform tools env i fs := by
  rw [runWith, h]

theorem run_eq_perform {argv : List Bytes} {i : Invocation} (h : Invocation.ofArguments argv = .ok i) :
    run env argv fs = perform (commandToolchain env) env i fs :=
  runWith_eq_perform _ h

theorem absolute_of_prepare {config : Option Path} {o : Overrides}
    (h : BuildConfig.prepare fs env.current config o = .ok c) :
    c.absolute (fs.pathOf? env.current) = .ok c := by
  have hcur : ∀ d ∈ fs.pathOf? env.current, ∃ place : Place, d = place.toPath :=
    fun d hd => ⟨env.current, FileSystem.eq_toPath_of_pathOf? hd⟩
  unfold BuildConfig.prepare at h
  cases config with
  | none => exact BuildConfig.absolute_absolute hcur h
  | some path =>
    obtain ⟨base, -, h⟩ := bind_eq_ok.1 h
    exact BuildConfig.absolute_absolute hcur h

/-- **A scan shows what a build would compile. With the same arguments both read the same configuration with
the same settings laid over it, or fail alike. Where the output directory is there, the build hands to the tool
the grammars that the scan lists, in that order and all at once, and it fails if the scan does.** -/
theorem scan_previews_build (env : Environment) (fs : FileSystem) {first : Bytes} {args : List Bytes}
    {i : Invocation} (h : Invocation.ofArguments (Invocation.commandLine first .scan args) = .ok i)
    (hj : Utf8.encode "--json" ∉ args) : ∃ config o, i.task = .scan config o false ∧
      Invocation.ofArguments (Invocation.commandLine first .build args) =
        .ok { i with task := .build config o } ∧
      (∀ e, BuildConfig.prepare fs env.current config o = .error e →
        (run env (Invocation.commandLine first .scan args) fs).status = 1 ∧
          run env (Invocation.commandLine first .build args) fs =
            run env (Invocation.commandLine first .scan args) fs) ∧
      ∀ c, BuildConfig.prepare fs env.current config o = .ok c →
        fs.isDirectory env.current c.outputDir = true →
        ((run env (Invocation.commandLine first .scan args) fs).status = 0 → ∃ found,
          c.grammars env fs = .ok found ∧
          (run env (Invocation.commandLine first .scan args) fs).stdout =
            String.join (found.map fun g => g.display ++ "\n") ∧
          ∀ engine course,
            ((commandToolchain env c.tool).prepare (.ofConfig c)).run (.start fs) = (.ok engine, course) →
            (run env (Invocation.commandLine first .build args) fs).course.batches =
              if found = [] then [] else [⟨c.sourceDir, true, found⟩]) ∧
        ((run env (Invocation.commandLine first .scan args) fs).status ≠ 0 → ∃ e,
          c.grammars env fs = .error e ∧
          (run env (Invocation.commandLine first .build args) fs).status = 1 ∧
          (run env (Invocation.commandLine first .build args) fs).course.batches = [] ∧
          ∀ engine course,
            ((commandToolchain env c.tool).prepare (.ofConfig c)).run (.start fs) = (.ok engine, course) →
            ∃ log, (run env (Invocation.commandLine first .build args) fs).stderr =
              log ++ ((BuildError.discovery e).render ++ "\n")) := by
  obtain ⟨config, o, htask, hbuild⟩ := Invocation.exists_build_of_scan h hj
  refine ⟨config, o, htask, hbuild, fun e he => ?_, fun c hc ho => ?_⟩
  · have hscan : run env (Invocation.commandLine first .scan args) fs =
        report (.ofVerbosity i.verbosity i.quiet) (.start fs) "" (some e.render) := by
      rw [run_eq_perform h, perform, htask, Task.config, Task.overrides, he]
    have hrun : run env (Invocation.commandLine first .build args) fs =
        report (.ofVerbosity i.verbosity i.quiet) (.start fs) "" (some e.render) := by
      rw [run_eq_perform hbuild, perform, Task.config, Task.overrides, he]
    rw [hscan, hrun]
    exact ⟨rfl, rfl⟩
  · have hscan : run env (Invocation.commandLine first .scan args) fs =
        scan env (.ofVerbosity i.verbosity i.quiet) c false fs := by
      rw [run_eq_perform h, perform, htask, Task.config, Task.overrides, hc]
    have hrun : run env (Invocation.commandLine first .build args) fs =
        build (commandToolchain env c.tool) env (.ofVerbosity i.verbosity i.quiet) c fs := by
      rw [run_eq_perform hbuild, perform, Task.config, Task.overrides, hc]
    have habs := absolute_of_prepare hc
    obtain ⟨hbatches, hfails⟩ := build_eq (commandToolchain env c.tool) env (.ofVerbosity i.verbosity i.quiet) c fs
    have hs := scan_eq env (.ofVerbosity i.verbosity i.quiet) c fs
    rw [hscan, hrun, hbatches]
    cases hg : c.grammars env fs with
    | error e =>
      rw [hg] at hs
      have hready : ∀ engine course,
          ((commandToolchain env c.tool).prepare (.ofConfig c)).run (.start fs) = (.ok engine, course) →
          ((Pass.run env (commandToolchain env c.tool) c).run (.start fs)).1 = .error (.discovery e) ∧
            ((Pass.run env (commandToolchain env c.tool) c).run (.start fs)).2.batches = [] := by
        intro engine course hp
        have hr := Pass.run_of_prepare habs ho hp
        rwa [hg] at hr
      have hany : ∃ x, ((Pass.run env (commandToolchain env c.tool) c).run (.start fs)).1 = .error x ∧
          ((Pass.run env (commandToolchain env c.tool) c).run (.start fs)).2.batches = [] := by
        cases hp : ((commandToolchain env c.tool).prepare (.ofConfig c)).run (.start fs) with
        | mk result course =>
          cases result with
          | error x => exact ⟨_, Pass.run_of_prepareFails habs ho hp⟩
          | ok engine => exact ⟨_, hready engine course hp⟩
      obtain ⟨x, hx, hnone⟩ := hany
      refine ⟨fun h0 => absurd (hs.symm.trans h0) one_ne_zero, fun _ => ⟨e, rfl, (hfails x hx).1, hnone, ?_⟩⟩
      intro engine course hp
      exact (hfails _ (hready engine course hp).1).2
    | ok found =>
      rw [hg] at hs
      refine ⟨fun _ => ⟨found, rfl, hs.2, fun engine course hp => ?_⟩, fun h0 => absurd hs.1 h0⟩
      have hr := Pass.run_of_prepare habs ho hp
      rwa [hg] at hr

/-! ## The usual directories -/

/-- The usual directories with one grammar, and a tool. -/
def usual : FileSystem where
  entries :=
    [(.ofNames [.ofString "src"], .directory),
      (.ofNames [.ofString "grammars", .ofString "src"], .directory),
      (.ofNames [.ofString "P.g", .ofString "grammars", .ofString "src"], .file ⟨[], false, none⟩),
      (.ofNames [.ofString "target"], .directory),
      (.ofNames [.ofString "generated-sources", .ofString "target"], .directory),
      (.ofNames [.ofString "grammars", .ofString "generated-sources", .ofString "target"], .directory),
      (.ofNames [.ofString "antlr3"], .file ⟨[], true, none⟩)]
  nodup := by decide

def usualEnvironment : Environment := { current := .root, searchPath := [.ofString "/"] }

def usualArguments : List Bytes := ["-i", "P.g", "--no-default-excludes"].map Utf8.encode

def usualOverrides : Overrides := { includes := ["P.g"], noDefaultExcludes := true }

def usualInvocation : Invocation := ⟨0, false, .scan none usualOverrides false⟩

def usualConfig : BuildConfig where
  sourceDir := .ofString "/src/grammars"
  outputDir := .ofString "/target/generated-sources/grammars"
  includes := .ofList ["P.g"]
  defaultExcludes := false

theorem ofArguments_usual :
    Invocation.ofArguments (Invocation.commandLine (Utf8.encode "grist") .scan usualArguments) =
      .ok usualInvocation := by
  rw [← toOption_eq_some]
  decide +kernel

theorem prepare_usual :
    BuildConfig.prepare usual usualEnvironment.current none usualOverrides = .ok usualConfig := by
  cbv

theorem grammars_usual : usualConfig.grammars usualEnvironment usual = .ok [⟨[], .ofString "P.g"⟩] := by
  have hfind : usual.find .root (.ofString "/src/grammars") true =
      .ok (.ofNames [.ofString "grammars", .ofString "src"], .directory) := by cbv
  have hc : usual.children (.ofNames [.ofString "grammars", .ofString "src"]) =
      [(.ofString "P.g", .file ⟨[], false, none⟩)] := by decide
  have hwalk : usual.walk .root (.ofString "/src/grammars") = .ok [[.ofString "P.g"]] := by
    rw [FileSystem.walk_of_directory hfind, FileSystem.walkFrom_eq, if_neg (by decide), hc]
    rfl
  have hwanted : (Filter.ofConfig usualConfig).wanted [[.ofString "P.g"]] = [⟨[], .ofString "P.g"⟩] := by
    decide +kernel
  have hdir : usual.isDirectory .root (.ofString "/src/grammars") = true := by
    rw [FileSystem.isDirectory, hfind]
  rw [BuildConfig.grammars, usualEnvironment, usualConfig, if_pos hdir]
  exact (Filter.scan_of_walk hwalk).trans (by rw [← usualConfig, hwanted, List.mergeSort_singleton])

/-- With the usual directories, what a scan lists is compiled. -/
theorem scan_previews_build_usual :
    Invocation.ofArguments (Invocation.commandLine (Utf8.encode "grist") .scan usualArguments) =
      .ok usualInvocation ∧
    Utf8.encode "--json" ∉ usualArguments ∧
    usual.isDirectory .root usualConfig.outputDir = true ∧
    (run usualEnvironment (Invocation.commandLine (Utf8.encode "grist") .scan usualArguments) usual).stdout =
      "P.g\n" ∧
    (run usualEnvironment (Invocation.commandLine (Utf8.encode "grist") .build usualArguments)
      usual).course.batches = [⟨.ofString "/src/grammars", true, [⟨[], .ofString "P.g"⟩]⟩] := by
  have hj : Utf8.encode "--json" ∉ usualArguments := by decide
  have ho : usual.isDirectory .root usualConfig.outputDir = true := by cbv
  have hp : ((commandToolchain usualEnvironment usualConfig.tool).prepare (.ofConfig usualConfig)).run
      (.start usual) = (.ok ⟨.ofString "/antlr3", [], .ofConfig usualConfig⟩,
        ⟨usual, [.log ⟨.debug, "grammar tool resolved to /antlr3"⟩]⟩) := by
    cbv
  obtain ⟨config, o, htask, -, -, h⟩ := scan_previews_build usualEnvironment usual ofArguments_usual hj
  cases htask
  obtain ⟨hzero, -⟩ := h usualConfig prepare_usual ho
  have hs := scan_eq usualEnvironment (.ofVerbosity 0 false) usualConfig usual
  rw [grammars_usual] at hs
  have hstatus : (run usualEnvironment (Invocation.commandLine (Utf8.encode "grist") .scan usualArguments)
      usual).status = 0 := by
    rw [run_eq_perform ofArguments_usual, perform, usualInvocation, Task.config, Task.overrides, prepare_usual]
    exact hs.1
  obtain ⟨found, hfound, hstdout, hbatches⟩ := hzero hstatus
  rw [grammars_usual] at hfound
  cases hfound
  refine ⟨ofArguments_usual, hj, ho, ?_, hbatches _ _ hp⟩
  rw [hstdout]
  decide +kernel

end Program

end GrammarBatch
