import GrammarBatch.Proofs.Discovery.Scan
import GrammarBatch.Proofs.Pass.Stages
import GrammarBatch.Proofs.Tool.Arguments
import Mathlib

/-!
# Grammars that look like flags

The tool takes arguments that begin with `-` for flags, some of which have a value behind them, and the others for
grammars. The directories it is given stand behind flags. A grammar is given by its path below the source directory,
which begins with its first name.

* `grammarsSeen`: the grammars that the tool sees in its arguments;
* **`Binding.grammarsSeen_arguments`**: it sees all but those that look like flags;
* **`Pass.grammarsSeen_collected`**: it sees the whole batch if and only if no grammar of it lies in an entry of the
  source directory, or is one, whose name begins with `-`.
-/

namespace GrammarBatch

open CommandLine (dash)

/-! ## How the tool reads its arguments -/

/-- The argument looks like a flag. -/
def IsFlag (b : Bytes) : Prop := b.head? = some dash

instance : DecidablePred IsFlag := fun b => inferInstanceAs (Decidable (b.head? = some dash))

/-- The flags with a value behind them. -/
def valuedFlags : List Bytes :=
  ["-o", "-fo", "-lib", "-message-format", "-Xmaxswitchcaselabels", "-Xminswitchalts"].map Utf8.encode

/-- The grammars that the tool sees in its arguments. `waiting` tells whether the first one is a flag's value. -/
def grammarsSeen (waiting : Bool) : List Bytes → List Bytes
  | [] => []
  | b :: args =>
    if waiting then grammarsSeen false args
    else if IsFlag b then grammarsSeen (valuedFlags.contains b) args
    else b :: grammarsSeen false args

variable {b : Bytes} {args : List Bytes}

theorem grammarsSeen_flag (h : IsFlag b) (hb : b ∉ valuedFlags) (args : List Bytes) :
    grammarsSeen false (b :: args) = grammarsSeen false args := by
  have hcontains : valuedFlags.contains b = false := by simpa using hb
  rw [grammarsSeen, if_neg Bool.false_ne_true, if_pos h, hcontains]

theorem grammarsSeen_valued (h : IsFlag b) (hb : b ∈ valuedFlags) (value : Bytes) (args : List Bytes) :
    grammarsSeen false (b :: value :: args) = grammarsSeen false args := by
  have hcontains : valuedFlags.contains b = true := by simpa using hb
  rw [grammarsSeen, if_neg Bool.false_ne_true, if_pos h, hcontains, grammarsSeen, if_pos rfl]

theorem grammarsSeen_append {flags : List Bytes} (h : ∀ b ∈ flags, IsFlag b ∧ b ∉ valuedFlags)
    (args : List Bytes) : grammarsSeen false (flags ++ args) = grammarsSeen false args := by
  induction flags with
  | nil => rfl
  | cons b flags ih =>
    obtain ⟨hflag, hb⟩ := h b List.mem_cons_self
    rw [List.cons_append, grammarsSeen_flag hflag hb, ih fun x hx => h x (List.mem_cons_of_mem b hx)]

theorem not_isFlag_of_mem_grammarsSeen {waiting : Bool} (h : b ∈ grammarsSeen waiting args) : ¬ IsFlag b := by
  induction args generalizing waiting with
  | nil => cases h
  | cons a args ih =>
    rw [grammarsSeen] at h
    split at h
    · exact ih h
    split at h
    · exact ih h
    · rename_i hflag
      rcases List.mem_cons.1 h with rfl | h
      · exact hflag
      · exact ih h

theorem grammarsSeen_eq_filter (h : ∀ b ∈ args, b ∉ valuedFlags) :
    grammarsSeen false args = args.filter fun b => ¬ IsFlag b := by
  induction args with
  | nil => rfl
  | cons b args ih =>
    have ih := ih fun x hx => h x (List.mem_cons_of_mem b hx)
    by_cases hflag : IsFlag b
    · rw [grammarsSeen_flag hflag (h b List.mem_cons_self), ih, List.filter_cons_of_neg (by simpa using hflag)]
    · rw [grammarsSeen, if_neg Bool.false_ne_true, if_neg hflag, ih, List.filter_cons_of_pos (by simpa using hflag)]

/-! ## The arguments of a run -/

theorem ToolOptions.isFlag_of_mem_flags {o : ToolOptions} (hb : b ∈ o.flags.map Utf8.encode) :
    IsFlag b ∧ b ∉ valuedFlags := by
  have hall : ∀ entry ∈ [(o.report, "-report"), (o.printGrammar, "-print"), (o.debug, "-debug"),
      (o.profile, "-profile"), (o.nfa, "-nfa"), (o.dfa, "-dfa"), (o.trace, "-trace"), (o.verbose, "-verbose")],
      IsFlag (Utf8.encode entry.2) ∧ Utf8.encode entry.2 ∉ valuedFlags := by
    simp only [List.forall_mem_cons]
    decide
  obtain ⟨flag, hflag, rfl⟩ := List.mem_map.1 hb
  exact hall _ (ToolOptions.mem_flags.1 hflag)

namespace Binding

variable {t : Batch}

/-- In front of the grammars there are flags, and values of flags, and nothing else. -/
theorem grammarsSeen_arguments_eq (b : Binding) (t : Batch) :
    grammarsSeen false (b.arguments t) = grammarsSeen false (t.grammars.map (·.toPath.bytes)) := by
  have hplace : IsFlag (Utf8.encode (if b.forceRelativeOutput then "-o" else "-fo")) ∧
      Utf8.encode (if b.forceRelativeOutput then "-o" else "-fo") ∈ valuedFlags := by
    cases b.forceRelativeOutput <;> decide
  have hmake : ∀ x ∈ (if t.make then [Utf8.encode "-make"] else []), IsFlag x ∧ x ∉ valuedFlags := by
    cases t.make <;> decide
  rw [arguments, ToolOptions.arguments, List.map_append]
  simp only [List.append_assoc, List.cons_append, List.nil_append, List.map_cons, List.map_nil]
  rw [grammarsSeen_valued hplace.1 hplace.2, grammarsSeen_valued (by decide) (by decide),
    grammarsSeen_append fun x hx => ToolOptions.isFlag_of_mem_flags hx, grammarsSeen_valued (by decide) (by decide),
    grammarsSeen_valued (by decide) (by decide), grammarsSeen_valued (by decide) (by decide),
    grammarsSeen_append hmake]

/-- **The tool sees all grammars if and only if none of them looks like a flag.** -/
theorem grammarsSeen_arguments (b : Binding) (t : Batch) :
    grammarsSeen false (b.arguments t) = t.grammars.map (·.toPath.bytes) ↔
      ∀ g ∈ t.grammars, ¬ IsFlag g.toPath.bytes := by
  rw [grammarsSeen_arguments_eq, ← List.forall_mem_map (P := fun x => ¬ IsFlag x)]
  constructor
  · intro h x hx
    rw [← h] at hx
    exact not_isFlag_of_mem_grammarsSeen hx
  · intro h
    have hvalued : ∀ x ∈ valuedFlags, IsFlag x := by decide
    rw [grammarsSeen_eq_filter fun x hx hm => h x hx (hvalued x hm), List.filter_eq_self]
    simpa using h

end Binding

/-! ## Batches that a pass collects -/

theorem GrammarPath.isFlag_toPath_iff (g : GrammarPath) :
    IsFlag g.toPath.bytes ↔ ∃ n ∈ g.names.head?, IsFlag n.bytes := by
  have hhead (n : Name) (rest : Bytes) : (n.bytes ++ rest).head? = n.bytes.head? :=
    List.head?_append_of_ne_nil _ n.bytes_ne_nil
  rw [toPath_eq]
  cases hnames : g.names with
  | nil => exact absurd hnames (List.append_ne_nil_of_right_ne_nil _ (List.cons_ne_nil _ _))
  | cons n names =>
    simp only [List.head?_cons, Option.mem_some_iff, exists_eq_left']
    by_cases hn : names = []
    · rw [hn, Path.bytes_ofNames_singleton]
    · rw [Path.bytes_ofNames_cons n hn, IsFlag, hhead]
      rfl

namespace Pass

variable {τ : Type} {env : Environment} {c : BuildConfig} {course : Course τ} {batch : Batch}

theorem collectBatch_of_scan {grammars : List GrammarPath}
    (h : (Filter.ofConfig c).scan course.files env.current c.sourceDir = .ok grammars) :
    ((collectBatch env c).run course).1 = .ok ⟨c.sourceDir, true, grammars⟩ := by
  obtain ⟨course', hrun, -⟩ := exists_run_collectBatch env c course
  rw [hrun, h]

theorem mem_collected_iff (h : ((collectBatch env c).run course).1 = .ok batch) {g : GrammarPath} :
    g ∈ batch.grammars ↔
      (∃ q content, course.files.Reaches env.current c.sourceDir g.names q (.file content)) ∧
        (Filter.ofConfig c).wants g = true := by
  obtain ⟨course', hrun, -⟩ := exists_run_collectBatch env c course
  rw [hrun] at h
  cases hscan : (Filter.ofConfig c).scan course.files env.current c.sourceDir with
  | error e =>
    rw [hscan] at h
    cases h
  | ok grammars =>
    rw [hscan] at h
    cases h
    exact Filter.mem_scan_iff hscan

/-- **The arguments for the grammars of a batch look like no flags, and the tool sees them all, if and only if no
wanted grammar has a first name that begins with `-`.** -/
theorem grammarsSeen_collected (h : ((collectBatch env c).run course).1 = .ok batch) (b : Binding) :
    let plain : Prop := ∀ g : GrammarPath,
      (∃ q content, course.files.Reaches env.current c.sourceDir g.names q (.file content)) →
        (Filter.ofConfig c).wants g = true → ∀ n ∈ g.names.head?, ¬ IsFlag n.bytes
    ((∀ g ∈ batch.grammars, ¬ IsFlag g.toPath.bytes) ↔ plain) ∧
      (grammarsSeen false (b.arguments batch) = batch.grammars.map (·.toPath.bytes) ↔ plain) := by
  intro plain
  have hplain : (∀ g ∈ batch.grammars, ¬ IsFlag g.toPath.bytes) ↔ plain := by
    refine forall_congr' fun g => ?_
    rw [mem_collected_iff h, GrammarPath.isFlag_toPath_iff, and_imp]
    simp only [not_exists, not_and]
  exact ⟨hplain, (b.grammarsSeen_arguments batch).trans hplain⟩

/-- A directory with a grammar whose name begins with `-`, and another such grammar one directory down. -/
def dashed : FileSystem where
  entries :=
    [(.ofNames [.ofString "dashes"], .directory),
      (.ofNames [.ofString "-Top.g", .ofString "dashes"], .file ⟨[], false, none⟩),
      (.ofNames [.ofString "inner", .ofString "dashes"], .directory),
      (.ofNames [.ofString "-Low.g", .ofString "inner", .ofString "dashes"], .file ⟨[], false, none⟩)]
  nodup := by decide

def dashedConfig (includes : List String) : BuildConfig where
  sourceDir := .ofString "/dashes"
  includes := .ofList includes
  defaultExcludes := false

theorem walk_dashed : dashed.walk .root (.ofString "/dashes") =
    .ok [[.ofString "-Top.g"], [.ofString "inner", .ofString "-Low.g"]] := by
  have hfind : dashed.find .root (.ofString "/dashes") true = .ok (.ofNames [.ofString "dashes"], .directory) := by
    cbv
  have hs : dashed.children (.ofNames [.ofString "dashes"]) =
      [(.ofString "-Top.g", .file ⟨[], false, none⟩), (.ofString "inner", .directory)] := by decide
  have hinner : dashed.visit .root [] ⟨.ofNames [.ofString "dashes"], .ofString "/dashes"⟩ []
      (.ofString "inner", .directory) = .ok [[.ofString "inner", .ofString "-Low.g"]] := by
    rw [FileSystem.visit, FileSystem.walkFrom_eq]
    exact (if_neg (by decide)).trans rfl
  rw [FileSystem.walk_of_directory hfind, FileSystem.walkFrom_eq, if_neg (by decide), hs]
  simp only [List.mapM_cons, List.mapM_nil]
  rw [hinner]
  rfl

theorem collectBatch_dashed {includes : List String} {grammars : List GrammarPath}
    (h : (Filter.ofConfig (dashedConfig includes)).wanted
      [[.ofString "-Top.g"], [.ofString "inner", .ofString "-Low.g"]] = grammars)
    (hsorted : grammars.Pairwise (Filter.precedes · ·)) :
    ((collectBatch { current := .root, searchPath := [] } (dashedConfig includes)).run
      (.start dashed : Course ToolCall)).1 = .ok ⟨.ofString "/dashes", true, grammars⟩ := by
  subst h
  rw [← List.mergeSort_of_pairwise hsorted]
  exact collectBatch_of_scan (Filter.scan_of_walk walk_dashed)

/-- The one grammar that is found if only what lies one directory down is wanted. -/
def lowBatch : Batch := ⟨.ofString "/dashes", true, [⟨[.ofString "inner"], .ofString "-Low.g"⟩]⟩

/-- Both grammars. -/
def dashedBatch : Batch := { lowBatch with grammars := ⟨[], .ofString "-Top.g"⟩ :: lowBatch.grammars }

theorem grammarsSeen_collected_low :
    grammarsSeen false ((Binding.ofConfig (dashedConfig ["inner/-Low.g"])).arguments lowBatch) =
      [Utf8.encode "inner/-Low.g"] := by
  have hbatch : ((collectBatch { current := .root, searchPath := [] } (dashedConfig ["inner/-Low.g"])).run
      (.start dashed : Course ToolCall)).1 = .ok lowBatch :=
    collectBatch_dashed (by decide +kernel) (List.pairwise_singleton ..)
  obtain ⟨hplain, hseen⟩ := grammarsSeen_collected hbatch (Binding.ofConfig (dashedConfig ["inner/-Low.g"]))
  exact hseen.2 (hplain.1 (by decide +kernel))

/-- Of the batch with both grammars, the tool takes the one above for a flag and does not see it. -/
theorem grammarsSeen_collected_top :
    ((collectBatch { current := .root, searchPath := [] } (dashedConfig ["-Top.g", "inner/-Low.g"])).run
      (.start dashed : Course ToolCall)).1 = .ok dashedBatch ∧
    (∃ g ∈ dashedBatch.grammars, IsFlag g.toPath.bytes) ∧
    grammarsSeen false ((Binding.ofConfig (dashedConfig ["-Top.g", "inner/-Low.g"])).arguments dashedBatch) =
      [Utf8.encode "inner/-Low.g"] := by
  refine ⟨collectBatch_dashed (by decide +kernel) (by decide +kernel), ⟨_, List.mem_cons_self, by decide +kernel⟩, ?_⟩
  rw [Binding.grammarsSeen_arguments_eq]
  decide +kernel

end Pass

end GrammarBatch
