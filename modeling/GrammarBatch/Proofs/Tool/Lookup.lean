import GrammarBatch.Proofs.Config.Absolute
import GrammarBatch.Proofs.Files.FromRoot
import GrammarBatch.Proofs.Tool.Verdict

/-!
# The program that is found and the program that runs

* `FileSystem.Executes`: what runs when a file is executed;
* `Environment.isAbsolute_of_findProgram`: where the path of the program that is found starts at the root;
* **`CommandEngine.compile_runs_found`**: then the file that was found is executed in every directory;
* `CommandEngine.compile_runs_another`: a search path that is relative leads elsewhere from another directory.
-/

namespace GrammarBatch

namespace FileSystem

variable {fs : FileSystem} {d x : Place} {p : Path} {args : List Bytes} {f : File} {run : ToolCall × Behaviour}

/-- What runs when the file at the place is executed: the file itself, or its interpreter, which is given the
path of the file. -/
inductive Executes (fs : FileSystem) (d : Place) (p : Path) (args : List Bytes) (x : Place) (f : File) :
    ToolCall × Behaviour → Prop where
  | itself {b : Behaviour} (hb : f.behaviour = some b) : Executes fs d p args x f (⟨x, d, args⟩, b)
  | interpreter {i : Interpreter} {run : ToolCall × Behaviour} (hb : f.behaviour = none)
    (hscript : Interpreter.ofScript? f.content = some i)
    (hrun : fs.executeWithin d (maxChain - 1) i.program (i.args ++ p.bytes :: args) = .ok run) :
    Executes fs d p args x f run

theorem execute_itself {b : Behaviour} (hfind : fs.find d p true = .ok (x, .file f)) (hexec : f.executable = true)
    (hroom : canTake p args = true) (hscript : Interpreter.ofScript? f.content = none)
    (hb : f.behaviour = some b) : fs.execute d p args = .ok (⟨x, d, args⟩, b) := by
  simp [execute, executeWithin, maxChain, hfind, hexec, hroom, hscript, hb]

theorem executes_of_execute (hfind : fs.find d p true = .ok (x, .file f)) (h : fs.execute d p args = .ok run) :
    fs.Executes d p args x f run := by
  rw [execute, executeWithin, hfind] at h
  dsimp only [maxChain] at h
  split at h
  · cases h
  split at h
  · cases h
  cases hscript : Interpreter.ofScript? f.content with
  | none =>
    cases hb : f.behaviour with
    | none => simp [hscript, hb] at h
    | some b =>
      simp only [hscript, hb, Option.map_some, Except.ok.injEq] at h
      rw [← h]
      exact .itself hb
  | some i =>
    simp only [hscript] at h
    split at h
    · cases h
    split at h
    · rename_i run' hrun
      cases hb : f.behaviour with
      | none =>
        simp only [hb, Option.map_none, Option.getD_none, Except.ok.injEq] at h
        rw [← h]
        exact .interpreter hb hscript hrun
      | some b =>
        simp only [hb, Option.map_some, Option.getD_some, Except.ok.injEq] at h
        rw [← h]
        exact .itself hb
    · cases h

end FileSystem

namespace Environment

variable {env : Environment} {fs : FileSystem} {name : String} {p : Path}

theorem exists_of_findProgram (h : env.findProgram fs name = some p) :
    ∃ x f, fs.find env.current p true = .ok (x, .file f) ∧ f.executable = true := by
  have hprogram : fs.isProgram env.current p = true := List.find?_some h
  unfold FileSystem.isProgram at hprogram
  split at hprogram
  · exact ⟨_, _, ‹_›, hprogram⟩
  · cases hprogram

/-- A name with a directory in it is read from the current directory, and another one from the search path. -/
theorem isAbsolute_of_findProgram (h : env.findProgram fs name = some p)
    (hname : ((∃ d, fs.pathOf? env.current = some d) ∧ 1 < (Path.ofString name).components.length) ∨
      ∀ d ∈ env.searchPath, (env.expandHome d).isAbsolute = true) : p.isAbsolute = true := by
  have hsearched (hpath : ∀ d ∈ env.searchPath, (env.expandHome d).isAbsolute = true) :
      ∀ q ∈ env.searched (.ofString name), q.isAbsolute = true := by
    intro q hq
    obtain ⟨d, hd, rfl⟩ := List.mem_map.1 hq
    exact Path.isAbsolute_join (hpath d hd) _
  have hp := List.mem_of_find?_eq_some h
  unfold candidates at hp
  dsimp only at hp
  split at hp
  · cases hp
  split at hp
  · rename_i current hcur
    split at hp
    · obtain rfl := List.mem_singleton.1 hp
      rw [FileSystem.eq_toPath_of_pathOf? hcur]
      exact Path.isAbsolute_join rfl _
    · rename_i hshort
      rcases hname with ⟨-, hlong⟩ | hpath
      · exact absurd hlong hshort
      · exact hsearched hpath p hp
  · rename_i hnone
    rcases hname with ⟨⟨d, hd⟩, -⟩ | hpath
    · rw [hnone] at hd
      cases hd
    · exact hsearched hpath p hp

theorem start_of_slash {d : Place} {directory : Path} {args : List Bytes} (hslash : p.bytes.contains slash = true)
    (hd : fs.find env.current directory true = .ok (d, .directory))
    (hzero : ¬(p.bytes :: directory.bytes :: args).any (·.contains 0) = true) :
    env.start fs p args directory = fs.execute d p args := by
  rw [start, if_neg hzero, hd]
  dsimp only
  rw [if_pos hslash]

theorem contains_slash_of_isAbsolute (h : p.isAbsolute = true) : p.bytes.contains slash = true := by
  rw [Path.isAbsolute, beq_iff_eq] at h
  exact List.contains_iff_mem.2 (List.mem_of_head? h)

end Environment

namespace CommandEngine

variable {env : Environment} {fs : FileSystem} {command : ToolCommand} {binding : Binding}
  {engine : CommandEngine} {course : Course ToolCall}

theorem notes_compile (env : Environment) (engine : CommandEngine) (batch : Batch) (fs : FileSystem) :
    ((engine.compile env batch).run (.start fs)).2.notes =
      match env.start fs engine.program (engine.arguments batch) batch.inputDir with
      | .ok (call, _) => [call]
      | .error _ => [] := by
  cases hstart : env.start fs engine.program (engine.arguments batch) batch.inputDir with
  | ok run =>
    have hprints : run.2.Prints _ _ := ⟨Text.cutInto_lines _, Text.cutInto_lines _⟩
    have hrun : (engine.compile env batch).run (.start fs) = _ := run_compile hstart hprints
    have hlogs (told : List Diagnostic) :
        (told.map fun d => (.log d.record : Event ToolCall)).filterMap Event.tool? = [] := by
      simp [List.filterMap_map, Function.comp_def, Event.tool?]
    rw [hrun]
    exact congrArg (run.1 :: ·) (hlogs _)
  | error cause =>
    rw [compile, Job.run_bind, Job.log, Job.run_emit, Job.run_bind, Job.run_files]
    dsimp only
    rw [Course.files_start, ← arguments, hstart]
    rfl

theorem findProgram_of_prepare
    (h : ((commandToolchain env command).prepare binding).run (.start fs) = (.ok engine, course)) :
    env.findProgram fs command.program = some engine.program := by
  rw [commandToolchain, Job.run_bind, Job.run_files] at h
  dsimp only at h
  rw [Course.files_start] at h
  cases hfound : env.findProgram fs command.program with
  | none =>
    rw [hfound] at h
    cases h
  | some program =>
    rw [hfound] at h
    cases h
    rfl

/-- **The tool that is made ready is a program, and where its path starts at the root, that file is executed for
every batch, whatever directory the batch is in. It does if the name of the tool has a directory in it, or the
search path has only directories from the root.** -/
theorem compile_runs_found
    (h : ((commandToolchain env command).prepare binding).run (.start fs) = (.ok engine, course)) :
    ∃ x f, fs.find env.current engine.program true = .ok (x, .file f) ∧ f.executable = true ∧
      (((∃ d, fs.pathOf? env.current = some d) ∧ 1 < (Path.ofString command.program).components.length) ∨
        (∀ d ∈ env.searchPath, (env.expandHome d).isAbsolute = true) → engine.program.isAbsolute = true) ∧
      (engine.program.isAbsolute = true → ∀ (batch : Batch) (d : Place),
        fs.find env.current batch.inputDir true = .ok (d, .directory) →
        fs.find d engine.program true = .ok (x, .file f) ∧
        (¬(engine.program.bytes :: batch.inputDir.bytes :: engine.arguments batch).any (·.contains 0) = true →
          env.start fs engine.program (engine.arguments batch) batch.inputDir =
            fs.execute d engine.program (engine.arguments batch)) ∧
        ∀ call ∈ ((engine.compile env batch).run (.start fs)).2.notes, ∃ b,
          fs.Executes d engine.program (engine.arguments batch) x f (call, b)) := by
  have hfound := findProgram_of_prepare h
  obtain ⟨x, f, hfile, hexec⟩ := Environment.exists_of_findProgram hfound
  refine ⟨x, f, hfile, hexec, Environment.isAbsolute_of_findProgram hfound, ?_⟩
  intro habs batch d hd
  have hsame : fs.find d engine.program true = .ok (x, .file f) :=
    (FileSystem.find_of_isAbsolute habs d env.current).trans hfile
  have hslash := Environment.contains_slash_of_isAbsolute habs
  refine ⟨hsame, Environment.start_of_slash hslash hd, ?_⟩
  intro call hcall
  rw [notes_compile] at hcall
  split at hcall
  · rename_i call' b hstart
    obtain rfl := List.mem_singleton.1 hcall
    by_cases hzero :
        (engine.program.bytes :: batch.inputDir.bytes :: engine.arguments batch).any (·.contains 0) = true
    · rw [Environment.start, if_pos hzero] at hstart
      cases hstart
    · rw [Environment.start_of_slash hslash hd hzero] at hstart
      exact ⟨b, FileSystem.executes_of_execute hsame hstart⟩
  · cases hcall

/-! ## Two programs of one name -/

/-- A program, and another one of the same name at the same place below a directory of grammars. -/
def twins : FileSystem where
  entries :=
    [(.ofNames [.ofString "bin"], .directory),
      (.ofNames [.ofString "twin", .ofString "bin"], .file ⟨[], true, some {}⟩),
      (.ofNames [.ofString "near"], .directory),
      (.ofNames [.ofString "bin", .ofString "near"], .directory),
      (.ofNames [.ofString "twin", .ofString "bin", .ofString "near"], .file ⟨[], true, some {}⟩)]
  nodup := by decide

/-- A search path with one entry. -/
def twinsEnvironment (entry : String) : Environment := { current := .root, searchPath := [.ofString entry] }

def twinsCommand : ToolCommand := { program := "twin" }

def twinsEngine (entry : String) : CommandEngine := ⟨.ofString (entry ++ "/twin"), [], .ofConfig {}⟩

def twinsBatch : Batch := ⟨.ofString "/near", true, []⟩

theorem prepare_twins {entry : String} (hentry : entry = "/bin" ∨ entry = "bin") :
    ((commandToolchain (twinsEnvironment entry) twinsCommand).prepare (.ofConfig {})).run (.start twins) =
      (.ok (twinsEngine entry),
        ⟨twins, [.log ⟨.debug, "grammar tool resolved to " ++ (twinsEngine entry).program.display⟩]⟩) := by
  rcases hentry with rfl | rfl
  · cbv
  · cbv

theorem find_twinsBatch (entry : String) : twins.find (twinsEnvironment entry).current twinsBatch.inputDir true =
    .ok (.ofNames [.ofString "near"], .directory) := by
  cbv

theorem notes_twins {entry : String} {x : Place} (hentry : entry = "/bin" ∨ entry = "bin")
    (hfile : twins.find (.ofNames [.ofString "near"]) (twinsEngine entry).program true =
      .ok (x, .file ⟨[], true, some {}⟩)) :
    (((twinsEngine entry).compile (twinsEnvironment entry) twinsBatch).run (.start twins)).2.notes =
      [⟨x, .ofNames [.ofString "near"], (twinsEngine entry).arguments twinsBatch⟩] := by
  have hslash : (twinsEngine entry).program.bytes.contains slash = true := by
    rcases hentry with rfl | rfl <;> decide
  have hzero : ¬((twinsEngine entry).program.bytes :: twinsBatch.inputDir.bytes ::
      (twinsEngine entry).arguments twinsBatch).any (·.contains 0) = true := by
    rcases hentry with rfl | rfl <;> decide +kernel
  have hroom : FileSystem.canTake (twinsEngine entry).program ((twinsEngine entry).arguments twinsBatch) =
      true := by
    rcases hentry with rfl | rfl <;> decide +kernel
  rw [notes_compile, Environment.start_of_slash hslash (find_twinsBatch entry) hzero,
    FileSystem.execute_itself hfile rfl hroom (by decide +kernel) rfl]

/-- With a search path from the root, the program that was found is the one that runs. -/
theorem compile_runs_found_twins :
    ((commandToolchain (twinsEnvironment "/bin") twinsCommand).prepare (.ofConfig {})).run (.start twins) =
      (.ok (twinsEngine "/bin"),
        ⟨twins, [.log ⟨.debug, "grammar tool resolved to " ++ (twinsEngine "/bin").program.display⟩]⟩) ∧
    ∃ call, (((twinsEngine "/bin").compile (twinsEnvironment "/bin") twinsBatch).run (.start twins)).2.notes =
        [call] ∧
      twins.find .root (twinsEngine "/bin").program true = .ok (call.program, .file ⟨[], true, some {}⟩) := by
  have hprepare := prepare_twins (Or.inl rfl : "/bin" = "/bin" ∨ "/bin" = "bin")
  have hroot : twins.find .root (twinsEngine "/bin").program true =
      .ok (.ofNames [.ofString "twin", .ofString "bin"], .file ⟨[], true, some {}⟩) := by cbv
  obtain ⟨x, f, hfile, -, habs, hruns⟩ := compile_runs_found hprepare
  have hx : (x, Entry.file f) = _ := Except.ok.inj (hfile.symm.trans hroot)
  obtain ⟨hsame, -, -⟩ := hruns (habs (Or.inr (by decide))) twinsBatch _ (find_twinsBatch "/bin")
  rw [hx] at hsame
  exact ⟨hprepare, _, notes_twins (Or.inl rfl) hsame, hroot⟩

/-- **With a relative search path, another program may run than the one that was found.** -/
theorem compile_runs_another :
    (∃ course, ((commandToolchain (twinsEnvironment "bin") twinsCommand).prepare (.ofConfig {})).run (.start twins) =
      (.ok (twinsEngine "bin"), course)) ∧
    twins.find .root (twinsEngine "bin").program true =
      .ok (.ofNames [.ofString "twin", .ofString "bin"], .file ⟨[], true, some {}⟩) ∧
    twins.find .root twinsBatch.inputDir true = .ok (.ofNames [.ofString "near"], .directory) ∧
    (((twinsEngine "bin").compile (twinsEnvironment "bin") twinsBatch).run (.start twins)).2.notes.map
      (·.program) = [.ofNames [.ofString "twin", .ofString "bin", .ofString "near"]] := by
  have hfile : twins.find (.ofNames [.ofString "near"]) (twinsEngine "bin").program true =
      .ok (.ofNames [.ofString "twin", .ofString "bin", .ofString "near"], .file ⟨[], true, some {}⟩) := by cbv
  refine ⟨⟨_, prepare_twins (Or.inr rfl)⟩, by cbv, find_twinsBatch "bin", ?_⟩
  rw [notes_twins (Or.inr rfl) hfile]
  rfl

end CommandEngine

end GrammarBatch
