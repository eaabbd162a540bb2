import GrammarBatch.Program
import GrammarBatch.Proofs.CommandLine.Accepted
import GrammarBatch.Proofs.Json.Indented
import GrammarBatch.Proofs.Json.Records
import GrammarBatch.Proofs.Path.Names
import GrammarBatch.Proofs.Program.Preview

/-!
# The two forms of a scan

A scan prints a line for each grammar, or one JSON text for all of them. Both say the same, whatever bytes the names
are made of.

* `Listed`: what the JSON text says on a grammar, with its reader `Listed.reader`;
* `Listed.IsSplit`: the path is the directory and a name in it;
* `Listing`: a plain text and a JSON text for the same grammars;
* `Invocation.ofArguments_json_iff`: the argument that asks for JSON may stand wherever an argument may;
* **`Program.run_scan_forms`**: both forms of a scan list the same grammars, or fail alike.
-/

namespace GrammarBatch

open CommandLine Json Json.Schema

/-! ## The argument that asks for JSON -/

namespace CommandLine

variable {program : Option String} {left rest : List Bytes} {xs ys zs outer : List Setting}

namespace Setting

theorem once_json : Once (xs ++ .json :: ys) ↔ .json ∉ xs ++ ys ∧ Once (xs ++ ys) := by
  have hsymm {x y : Setting} (h : x.argument = y.argument → x.argument.isRepeatable = true)
      (heq : y.argument = x.argument) : y.argument.isRepeatable = true := by
    rw [heq]
    exact h heq.symm
  have hjson (x : Setting) : (Setting.json.argument = x.argument → Setting.json.argument.isRepeatable = true) ↔
      x ≠ .json := by
    cases x <;> simp [argument, Argument.isRepeatable]
  rw [Once, List.pairwise_middle hsymm, List.pairwise_cons, ← Once]
  simp only [hjson, List.forall_mem_ne']

theorem overrides_json : overrides (xs ++ .json :: ys) = overrides (xs ++ ys) := by
  rw [overrides, overrides, List.foldl_append, List.foldl_append]
  rfl

theorem configPath?_json : configPath? (xs ++ .json :: ys) = configPath? (xs ++ ys) := by
  rw [configPath?, configPath?, List.findSome?_append, List.findSome?_append]
  rfl

theorem contains_json {x : Setting} (hx : x ≠ .json) :
    (xs ++ .json :: ys).contains x = (xs ++ ys).contains x := by
  rw [Bool.eq_iff_iff]
  simp [hx]

end Setting

theorem Scope.clash?_json : clash? (xs ++ .json :: ys) = clash? (xs ++ ys) := by
  have hfind : (xs ++ .json :: ys).reverse.find? (fun s => s = .verbose ∨ s = .quiet) =
      (xs ++ ys).reverse.find? fun s => s = .verbose ∨ s = .quiet := by
    simp [List.find?_append]
  rw [clash?, clash?, hfind, Setting.contains_json (x := .verbose) (by decide),
    Setting.contains_json (x := .quiet) (by decide)]

theorem Invocation.verbosityOf_json : verbosityOf outer (xs ++ .json :: ys) = verbosityOf outer (xs ++ ys) := by
  rw [verbosityOf, verbosityOf, Setting.contains_json (x := .verbose) (by decide)]
  split <;> simp

/-- **Where an argument may stand, the one that asks for JSON may, if it is not given elsewhere.** -/
theorem Scope.read_json_iff (h : Scope.scan.steps? none left = some (xs, none)) :
    Scope.scan.read program (left ++ Utf8.encode "--json" :: rest) = .ok zs ↔ ∃ ys, zs = xs ++ .json :: ys ∧
      .json ∉ xs ++ ys ∧ Scope.scan.read program (left ++ rest) = .ok (xs ++ ys) := by
  have hform : ¬ ((none : Option Argument) = none ∧ Form.of (Utf8.encode "--json") = .dashes) := by decide
  have hstep : Scope.scan.step? none (Utf8.encode "--json") = some ([.json], none) := by decide
  have hs : Scope.scan ≠ .top := by decide
  rw [read_eq_ok_iff hs, settings?_append h, settings?, if_neg hform, hstep, Option.bind_some, Option.map_map]
  simp only [read_eq_ok_iff hs, settings?_append h, Option.map_eq_some_iff]
  constructor
  · rintro ⟨⟨ys, hys, rfl⟩, hone, hclash⟩
    obtain ⟨hnew, hone⟩ := Setting.once_json.1 hone
    exact ⟨ys, rfl, hnew, ⟨ys, hys, rfl⟩, hone, Scope.clash?_json.symm.trans hclash⟩
  · rintro ⟨ys, rfl, hnew, ⟨ys', hys, heq⟩, hone, hclash⟩
    obtain rfl := List.append_cancel_left heq
    exact ⟨⟨_, hys, rfl⟩, Setting.once_json.2 ⟨hnew, hone⟩, Scope.clash?_json.trans hclash⟩

namespace Invocation

variable {first : Bytes} {before : List Bytes} {i : Invocation}

/-- The command line of a scan, with arguments in front of the verb and behind it. -/
def scanLine (first : Bytes) (before after : List Bytes) : List Bytes :=
  first :: (before ++ Utf8.encode Verb.scan.name :: after)

/-- **A scan is accepted with the argument that asks for JSON if it is without, and asks for nothing else.** -/
theorem ofArguments_json_iff (hbefore : Scope.top.steps? none before = some (outer, none))
    (hleft : Scope.scan.steps? none left = some (xs, none)) :
    ofArguments (scanLine first before (left ++ Utf8.encode "--json" :: rest)) = .ok i ↔
      ∃ verbosity quiet config o, i = ⟨verbosity, quiet, .scan config o true⟩ ∧
        ofArguments (scanLine first before (left ++ rest)) = .ok ⟨verbosity, quiet, .scan config o false⟩ := by
  simp only [scanLine, ofArguments_at_eq_ok_iff hbefore, readTask_scan_eq_ok_iff, Scope.read_json_iff hleft]
  constructor
  · rintro ⟨hone, hclash, _, _, ⟨⟨ys, rfl, hnew, hread⟩, rfl⟩, rfl⟩
    have hjson : (xs ++ Setting.json :: ys).contains .json = true := by simp
    rw [verbosityOf_json, Setting.contains_json (x := .quiet) (by decide), Setting.configPath?_json,
      Setting.overrides_json, hjson]
    refine ⟨_, _, _, _, rfl, hone, hclash, _, _, ⟨hread, rfl⟩, ?_⟩
    rw [Bool.eq_false_iff.2 fun h => hnew (List.contains_iff_mem.1 h)]
  · rintro ⟨_, _, _, _, rfl, hone, hclash, inner, _, ⟨hread, rfl⟩, heq⟩
    obtain ⟨ys, rfl⟩ : ∃ ys, inner = xs ++ ys := by
      obtain ⟨hsettings, -⟩ := (Scope.read_eq_ok_iff (s := .scan) (by decide)).1 hread
      rw [Scope.settings?_append hleft] at hsettings
      obtain ⟨ys, -, rfl⟩ := Option.map_eq_some_iff.1 hsettings
      exact ⟨ys, rfl⟩
    injection heq with hverbosity hquiet htask
    injection htask with hconfig ho hnew
    refine ⟨hone, hclash, _, _, ⟨⟨ys, rfl, ?_, hread⟩, rfl⟩, ?_⟩
    · exact fun h => Bool.false_ne_true (hnew.trans (List.contains_iff_mem.2 h))
    · have hjson : (xs ++ Setting.json :: ys).contains .json = true := by simp
      rw [verbosityOf_json, Setting.contains_json (x := .quiet) (by decide), Setting.configPath?_json,
        Setting.overrides_json, hjson, hverbosity, hquiet, hconfig, ho]

end Invocation

end CommandLine

/-! ## Entries -/

/-- What is said on a grammar. -/
structure Listed where
  path : String
  subdir : String
deriving DecidableEq

namespace Listed

/-- What is said on a grammar with this path. -/
def ofGrammar (g : GrammarPath) : Listed := ⟨g.display, g.folder.display⟩

/-- The object that says it. -/
def tree (e : Listed) : Tree := .object [("path", .text e.path), ("subdir", .text e.subdir)]

def fields : List (Decoded Listed) :=
  [.of "path" decodes_text fun s e => { e with path := s },
    .of "subdir" decodes_text fun s e => { e with subdir := s }]

/-- Reads an entry. -/
def reader : Reader Listed := record "Listed" (fields.map (·.toMember)) ⟨"", ""⟩

/-- The path is the directory, with a slash behind it if there is one, and a name. -/
def IsSplit (e : Listed) : Prop :=
  ∃ name : String, name ≠ "" ∧ '/' ∉ name.toList ∧ e.path = (if e.subdir = "" then "" else e.subdir ++ "/") ++ name

theorem decodes_reader : Decodes reader (Tree.record? fields ⟨"", ""⟩) := decodes_record fields _

theorem listOf?_trees (l : List Listed) :
    Tree.listOf? (Tree.record? fields ⟨"", ""⟩) (.list (l.map tree)) = some l := by
  have hone (e : Listed) : Tree.record? fields ⟨"", ""⟩ e.tree = some e := rfl
  change (l.map tree).mapM (Tree.record? fields ⟨"", ""⟩) = some l
  induction l with
  | nil => rfl
  | cons e l ih =>
    rw [List.map_cons, List.mapM_cons, hone, ih]
    rfl

theorem decodeLossy_eq_empty_iff {b : Bytes} : Utf8.decodeLossy b = "" ↔ b = [] := by
  rw [Utf8.decodeLossy, ← String.toList_inj, String.toList_ofList]
  exact Utf8.lossy_eq_iff (List.forall_mem_nil _)

/-- **A name is shown as a text that is not empty and has no slash in it.** -/
theorem isSplit_ofGrammar (g : GrammarPath) : (ofGrammar g).IsSplit := by
  have hname : g.fileName.display ≠ "" := fun h => g.fileName.bytes_ne_nil (decodeLossy_eq_empty_iff.1 h)
  have hslash : '/' ∉ g.fileName.display.toList := by
    intro h
    rw [Name.toList_display] at h
    obtain ⟨b, hb, hlt, heq⟩ := Utf8.mem_lossy Utf8.sound_rest h (by decide)
    obtain rfl : b = slash := (Utf8.ofNat_byte_eq_iff hlt (by decide)).1 heq.symm
    exact g.fileName.slash_notMem hb
  have hfolder : g.folder.display = "" ↔ g.isAtRoot = true := by
    rw [GrammarPath.isAtRoot, List.isEmpty_iff, ← Path.bytes_ofNames_eq_nil_iff]
    exact decodeLossy_eq_empty_iff
  refine ⟨g.fileName.display, hname, hslash, ?_⟩
  simp only [ofGrammar, GrammarPath.display, GrammarPath.folderText, hfolder]

end Listed

/-! ## Texts -/

/-- A plain text and a JSON text list the same. -/
structure Listing (plain json : String) (l : List Listed) : Prop where
  plain_eq : plain = String.join (l.map fun e => e.path ++ "\n")
  spelled : Says json (.list (l.map Listed.tree))
  reads : (Reader.run (listOf Listed.reader) json.toList).toOption = some l
  isSplit : ∀ e ∈ l, e.IsSplit

namespace Program

/-- **The two forms list the same.** -/
theorem listing_forms (grammars : List GrammarPath) :
    Listing (listing false grammars) (listing true grammars) (grammars.map Listed.ofGrammar) := by
  have hsays : Says (listing true grammars) (.list ((grammars.map Listed.ofGrammar).map Listed.tree)) := by
    have h := Value.says_indented (.list (grammars.map ofGrammar))
    rw [Value.tree, Value.itemTrees_map] at h
    rw [List.map_map]
    exact h
  refine ⟨?_, hsays, ?_, ?_⟩
  · rw [List.map_map]
    rfl
  · rw [(decodes_listOf Listed.decodes_reader).run hsays, Listed.listOf?_trees]
  · intro e he
    obtain ⟨g, -, rfl⟩ := List.mem_map.1 he
    exact Listed.isSplit_ofGrammar g

/-- What both forms of a scan come to. -/
structure Forms (plain json : Report) : Prop where
  status_eq : json.status = plain.status
  stderr_eq : json.stderr = plain.stderr
  empty_of_failed : plain.status ≠ 0 → plain.stdout = "" ∧ json.stdout = ""

/-- Both forms of a scan end alike; a source directory that is not there has nothing to list. -/
theorem scan_forms (env : Environment) (limit : Log.Limit) (c : BuildConfig) (fs : FileSystem) :
    Forms (scan env limit c false fs) (scan env limit c true fs) ∧
      ((scan env limit c false fs).status = 0 → ∃ found, c.grammars env fs = .ok found ∧
        (scan env limit c false fs).stdout = listing false found ∧
        (scan env limit c true fs).stdout = listing true found) := by
  rw [BuildConfig.grammars]
  cases hd : fs.isDirectory env.current c.sourceDir with
  | false =>
    simp only [scan, hd]
    exact ⟨⟨rfl, rfl, fun h => absurd rfl h⟩, fun _ => ⟨[], rfl, rfl, rfl⟩⟩
  | true =>
    rw [if_pos rfl]
    cases hs : (Filter.ofConfig c).scan fs env.current c.sourceDir with
    | error e =>
      simp only [scan, hd, hs]
      exact ⟨⟨rfl, rfl, fun _ => ⟨rfl, rfl⟩⟩, fun h => absurd h one_ne_zero⟩
    | ok found =>
      simp only [scan, hd, hs]
      exact ⟨⟨rfl, rfl, fun h => absurd rfl h⟩, fun _ => ⟨found, rfl, rfl, rfl⟩⟩

theorem perform_scan_forms {ε : Type} (tools : ToolCommand → Toolchain ToolCall ε) (env : Environment)
    (fs : FileSystem) (verbosity : Nat) (quiet : Bool) (config : Option Path) (o : Overrides) :
    Forms (perform tools env ⟨verbosity, quiet, .scan config o false⟩ fs)
      (perform tools env ⟨verbosity, quiet, .scan config o true⟩ fs) ∧
    ((perform tools env ⟨verbosity, quiet, .scan config o false⟩ fs).status = 0 → ∃ c found,
      BuildConfig.prepare fs env.current config o = .ok c ∧ c.grammars env fs = .ok found ∧
      (perform tools env ⟨verbosity, quiet, .scan config o false⟩ fs).stdout = listing false found ∧
      (perform tools env ⟨verbosity, quiet, .scan config o true⟩ fs).stdout = listing true found) := by
  simp only [perform, Task.config, Task.overrides]
  cases hc : BuildConfig.prepare fs env.current config o with
  | error e => exact ⟨⟨rfl, rfl, fun _ => ⟨rfl, rfl⟩⟩, fun h => absurd h one_ne_zero⟩
  | ok c =>
    obtain ⟨hforms, hfound⟩ := scan_forms env (.ofVerbosity verbosity quiet) c fs
    refine ⟨hforms, fun h => ?_⟩
    obtain ⟨found, hfound⟩ := hfound h
    exact ⟨c, found, rfl, hfound⟩

/-- **Both forms of a scan list the same grammars. Where the one is accepted the other is, if JSON is asked for once;
they end alike, tell the same on standard error, and print nothing else where they fail. Otherwise the JSON text is
one for a list, which is read back as entries whose paths are the lines of the plain text; each is a directory and a
name in it. Without a source directory there are none.** -/
theorem run_scan_forms (env : Environment) (fs : FileSystem) {first : Bytes} {before left : List Bytes}
    (rest : List Bytes) {outer xs : List Setting}
    (hbefore : Scope.top.steps? none before = some (outer, none))
    (hleft : Scope.scan.steps? none left = some (xs, none)) :
    let plainLine := Invocation.scanLine first before (left ++ rest)
    let jsonLine := Invocation.scanLine first before (left ++ Utf8.encode "--json" :: rest)
    (∀ i, Invocation.ofArguments jsonLine = .ok i ↔ ∃ verbosity quiet config o,
      i = ⟨verbosity, quiet, .scan config o true⟩ ∧
      Invocation.ofArguments plainLine = .ok ⟨verbosity, quiet, .scan config o false⟩) ∧
    ∀ verbosity quiet config o,
      Invocation.ofArguments plainLine = .ok ⟨verbosity, quiet, .scan config o false⟩ →
      Forms (run env plainLine fs) (run env jsonLine fs) ∧
      ((run env plainLine fs).status = 0 → ∃ c found, BuildConfig.prepare fs env.current config o = .ok c ∧
        c.grammars env fs = .ok found ∧
        Listing (run env plainLine fs).stdout (run env jsonLine fs).stdout (found.map Listed.ofGrammar)) ∧
      ∀ c, BuildConfig.prepare fs env.current config o = .ok c →
        fs.isDirectory env.current c.sourceDir = false →
        (run env plainLine fs).status = 0 ∧ (run env plainLine fs).stdout = "" ∧
          (run env jsonLine fs).stdout = "[]\n" := by
  intro plainLine jsonLine
  refine ⟨fun i => Invocation.ofArguments_json_iff hbefore hleft, fun verbosity quiet config o hplain => ?_⟩
  have hjson : Invocation.ofArguments jsonLine = .ok ⟨verbosity, quiet, .scan config o true⟩ :=
    (Invocation.ofArguments_json_iff hbefore hleft).2 ⟨verbosity, quiet, config, o, rfl, hplain⟩
  rw [run_eq_perform hplain, run_eq_perform hjson]
  obtain ⟨hforms, hfound⟩ := perform_scan_forms (commandToolchain env) env fs verbosity quiet config o
  refine ⟨hforms, fun h => ?_, fun c hc hd => ?_⟩
  · obtain ⟨c, found, hc, hg, hp, hj⟩ := hfound h
    rw [hp, hj]
    exact ⟨c, found, hc, hg, listing_forms found⟩
  · simp only [perform, Task.config, Task.overrides, hc, scan, hd]
    exact ⟨rfl, rfl, rfl⟩

/-- A grammar in a directory, with a quote, a line's end and a byte that is no text in its name. -/
def awkwardGrammar : GrammarPath := ⟨[.ofString "nook"], ⟨[0x22, 0x0A, 0xFF, 0x2E, 0x67], by decide⟩⟩

def awkward : FileSystem where
  entries :=
    [(.ofNames [.ofString "awkward"], .directory),
      (.ofNames [.ofString "nook", .ofString "awkward"], .directory),
      (.ofNames [awkwardGrammar.fileName, .ofString "nook", .ofString "awkward"], .file ⟨[], false, none⟩)]
  nodup := by decide

def awkwardEnvironment : Environment := { current := .root, searchPath := [] }

/-- The arguments in front of the place where JSON may be asked for. -/
def awkwardLeft : List Bytes := ["--source-dir", "/awkward", "-i", "nook/**"].map Utf8.encode

def awkwardRest : List Bytes := [Utf8.encode "--no-default-excludes"]

def awkwardOverrides : Overrides where
  sourceDir := some (.ofString "/awkward")
  includes := ["nook/**"]
  noDefaultExcludes := true

def awkwardConfig : BuildConfig where
  sourceDir := .ofString "/awkward"
  outputDir := .ofString "/target/generated-sources/grammars"
  includes := .ofList ["nook/**"]
  defaultExcludes := false

theorem ofArguments_awkward :
    Invocation.ofArguments (Invocation.scanLine (Utf8.encode "grist") [Utf8.encode "-v"] (awkwardLeft ++ awkwardRest)) =
      .ok ⟨1, false, .scan none awkwardOverrides false⟩ := by
  rw [← toOption_eq_some]
  decide +kernel

theorem prepare_awkward :
    BuildConfig.prepare awkward awkwardEnvironment.current none awkwardOverrides = .ok awkwardConfig := by
  rw [← toOption_eq_some]
  decide +kernel

theorem grammars_awkward : awkwardConfig.grammars awkwardEnvironment awkward = .ok [awkwardGrammar] := by
  have hfind : awkward.find .root (.ofString "/awkward") true = .ok (.ofNames [.ofString "awkward"], .directory) := by
    cbv
  have hc : awkward.children (.ofNames [.ofString "awkward"]) = [(.ofString "nook", .directory)] := by decide
  have hnook : awkward.visit .root [] ⟨.ofNames [.ofString "awkward"], .ofString "/awkward"⟩ []
      (.ofString "nook", .directory) = .ok [awkwardGrammar.names] := by
    rw [FileSystem.visit, FileSystem.walkFrom_eq]
    exact (if_neg (by decide)).trans rfl
  have hwalk : awkward.walk .root (.ofString "/awkward") = .ok [awkwardGrammar.names] := by
    rw [FileSystem.walk_of_directory hfind, FileSystem.walkFrom_eq, if_neg (by decide), hc]
    simp only [List.mapM_cons, List.mapM_nil]
    rw [hnook]
    rfl
  have hwanted : (Filter.ofConfig awkwardConfig).wanted [awkwardGrammar.names] = [awkwardGrammar] := by
    decide +kernel
  have hdir : awkward.isDirectory .root (.ofString "/awkward") = true := by
    rw [FileSystem.isDirectory, hfind]
  rw [BuildConfig.grammars, awkwardEnvironment, awkwardConfig, if_pos hdir]
  exact (Filter.scan_of_walk hwalk).trans (by rw [← awkwardConfig, hwanted, List.mergeSort_singleton])

/-- With a quote, a line's end and a byte that is no text in a name, both forms still list the same. -/
theorem run_scan_forms_awkward :
    let plainLine := Invocation.scanLine (Utf8.encode "grist") [Utf8.encode "-v"] (awkwardLeft ++ awkwardRest)
    let jsonLine := Invocation.scanLine (Utf8.encode "grist") [Utf8.encode "-v"]
      (awkwardLeft ++ Utf8.encode "--json" :: awkwardRest)
    (run awkwardEnvironment plainLine awkward).status = 0 ∧
      Listing (run awkwardEnvironment plainLine awkward).stdout (run awkwardEnvironment jsonLine awkward).stdout
        [⟨"nook/\"\n\uFFFD.g", "nook"⟩] := by
  intro plainLine jsonLine
  have hbefore : Scope.top.steps? none [Utf8.encode "-v"] = some ([.verbose], none) := by decide
  have hleft : Scope.scan.steps? none awkwardLeft =
      some ([.sourceDir (.ofString "/awkward"), .includePattern "nook/**"], none) := by decide
  have hstatus : (run awkwardEnvironment plainLine awkward).status = 0 := by
    have hs := scan_eq awkwardEnvironment (.ofVerbosity 1 false) awkwardConfig awkward
    rw [grammars_awkward] at hs
    rw [run_eq_perform ofArguments_awkward, perform, Task.config, Task.overrides, prepare_awkward]
    exact hs.1
  obtain ⟨-, hlist, -⟩ := (run_scan_forms awkwardEnvironment awkward awkwardRest hbefore hleft).2 _ _ _ _
    ofArguments_awkward
  obtain ⟨c, found, hc, hfound, hlist⟩ := hlist hstatus
  rw [prepare_awkward] at hc
  cases hc
  rw [grammars_awkward] at hfound
  cases hfound
  have hentry : [awkwardGrammar].map Listed.ofGrammar = [⟨"nook/\"\n\uFFFD.g", "nook"⟩] := by decide +kernel
  rw [hentry] at hlist
  exact ⟨hstatus, hlist⟩

end Program

end GrammarBatch
