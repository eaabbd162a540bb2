import GrammarBatch.Proofs.CommandLine.Written
import GrammarBatch.Proofs.Config.Layers
import Mathlib

/-!
# Overrides on the command line, in any order

Every field of the overrides has an argument of its own. So the arguments of different fields may come in any order,
and those of one field only have to keep theirs.

* `Overrides.settingsOf`, `Overrides.settings`: the settings that give the overrides, argument by argument;
* `Overrides.ext_settingsOf`: overrides are known by them;
* **`Overrides.settingsOf_lay`**: a setting reaches the field of its argument and no other;
* `Setting.settingsOf_overrides`, `Setting.overrides_eq`: what settings give together;
* **`Invocation.ofArguments_written`**: overrides that are written as arguments, in whichever order, are read again.
-/

namespace GrammarBatch

open CommandLine

/-! ## The settings that give overrides -/

namespace Overrides

variable {o o' : Overrides} {config : Option Path} {a : Argument} {x : Setting}

/-- The arguments that give overrides. -/
def arguments : List Argument :=
  [.sourceDir, .outputDir, .libDir, .includePattern, .excludePattern, .noDefaultExcludes, .report, .printGrammar,
    .debugCodegen, .profile, .nfa, .dfa, .trace, .messageFormat, .quietTool, .maxSwitchCaseLabels, .minSwitchAlts,
    .tool, .toolArg]

/-- The settings of one argument that name the configuration file and give the overrides. -/
def settingsOf (o : Overrides) (config : Option Path) : Argument → List Setting
  | .config => config.toList.map .config
  | .sourceDir => o.sourceDir.toList.map .sourceDir
  | .outputDir => o.outputDir.toList.map .outputDir
  | .libDir => o.libDir.toList.map .libDir
  | .includePattern => o.includes.map .includePattern
  | .excludePattern => o.excludes.map .excludePattern
  | .noDefaultExcludes => if o.noDefaultExcludes then [.noDefaultExcludes] else []
  | .report => if o.report then [.report] else []
  | .printGrammar => if o.printGrammar then [.printGrammar] else []
  | .debugCodegen => if o.debug then [.debugCodegen] else []
  | .profile => if o.profile then [.profile] else []
  | .nfa => if o.nfa then [.nfa] else []
  | .dfa => if o.dfa then [.dfa] else []
  | .trace => if o.trace then [.trace] else []
  | .messageFormat => o.messageFormat.toList.map .messageFormat
  | .quietTool => if o.quietTool then [.quietTool] else []
  | .maxSwitchCaseLabels => o.maxSwitchCaseLabels.toList.map .maxSwitchCaseLabels
  | .minSwitchAlts => o.minSwitchAlts.toList.map .minSwitchAlts
  | .tool => o.tool.toList.map .tool
  | .toolArg => o.toolArgs.map .toolArg
  | .verbose | .quiet | .help | .version | .json => []

/-- The settings that name the configuration file and give the overrides. -/
def settings (o : Overrides) (config : Option Path) : List Setting :=
  Scope.build.arguments.flatMap (o.settingsOf config)

theorem argument_of_mem_settingsOf (hx : x ∈ o.settingsOf config a) : x.argument = a := by
  have hswitch {on : Bool} {y : Setting} (hx : x ∈ if on then [y] else []) : x = y := by
    cases on with
    | false => cases hx
    | true => exact List.mem_singleton.1 hx
  cases a <;> first
    | (obtain ⟨_, -, rfl⟩ := List.mem_map.1 hx; rfl)
    | (rw [hswitch hx]; rfl)
    | cases hx

theorem length_settingsOf (ha : a.isRepeatable = false) : (o.settingsOf config a).length ≤ 1 := by
  have hoption {α : Type} (given : Option α) (mk : α → Setting) : (given.toList.map mk).length ≤ 1 := by
    cases given <;> simp
  have hswitch (on : Bool) (y : Setting) : (if on then [y] else []).length ≤ 1 := by
    cases on <;> simp
  cases a <;> first
    | exact hoption _ _
    | exact hswitch _ _
    | exact Nat.zero_le 1
    | cases ha

theorem ext_settingsOf (config : Option Path)
    (h : ∀ a ∈ arguments, o.settingsOf config a = o'.settingsOf config a) : o = o' := by
  have hlist {α : Type} {given given' : List α} {mk : α → Setting} (hmk : mk.Injective)
      (h : given.map mk = given'.map mk) : given = given' := List.map_injective_iff.2 hmk h
  have hoption {α : Type} {given given' : Option α} {mk : α → Setting} (hmk : mk.Injective)
      (h : given.toList.map mk = given'.toList.map mk) : given = given' :=
    Option.map_injective hmk (by simpa using congrArg List.head? h)
  have hswitch {on on' : Bool} {y : Setting} (h : (if on then [y] else []) = if on' then [y] else []) :
      on = on' := by
    cases on <;> cases on' <;> first | rfl | cases h
  have hfield (a : Argument) (ha : a ∈ arguments := by decide) := h a ha
  cases o
  cases o'
  congr
  · exact hoption (fun _ _ => Setting.sourceDir.inj) (hfield .sourceDir)
  · exact hoption (fun _ _ => Setting.outputDir.inj) (hfield .outputDir)
  · exact hoption (fun _ _ => Setting.libDir.inj) (hfield .libDir)
  · exact hlist (fun _ _ => Setting.includePattern.inj) (hfield .includePattern)
  · exact hlist (fun _ _ => Setting.excludePattern.inj) (hfield .excludePattern)
  · exact hswitch (hfield .noDefaultExcludes)
  · exact hswitch (hfield .report)
  · exact hswitch (hfield .printGrammar)
  · exact hswitch (hfield .debugCodegen)
  · exact hswitch (hfield .profile)
  · exact hswitch (hfield .nfa)
  · exact hswitch (hfield .dfa)
  · exact hswitch (hfield .trace)
  · exact hoption (fun _ _ => Setting.messageFormat.inj) (hfield .messageFormat)
  · exact hswitch (hfield .quietTool)
  · exact hoption (fun _ _ => Setting.maxSwitchCaseLabels.inj) (hfield .maxSwitchCaseLabels)
  · exact hoption (fun _ _ => Setting.minSwitchAlts.inj) (hfield .minSwitchAlts)
  · exact hoption (fun _ _ => Setting.tool.inj) (hfield .tool)
  · exact hlist (fun _ _ => Setting.toolArg.inj) (hfield .toolArg)

/-- **A setting reaches the field of its own argument and no other.** -/
theorem settingsOf_lay (ha : a ∈ arguments) : (Setting.lay o x).settingsOf config a =
    if x.argument = a then if a.isRepeatable then o.settingsOf config a ++ [x] else [x]
    else o.settingsOf config a := by
  by_cases hx : x.argument = a
  · subst hx
    rw [if_pos rfl]
    cases x <;> first
      | rfl
      | exact List.map_append
      | exact absurd ha (by simp [arguments, Setting.argument])
  · rw [if_neg hx]
    cases a <;> cases x <;> first | rfl | exact absurd rfl hx

theorem filter_flatMap_settingsOf {l : List Argument} (hl : l.Nodup) (a : Argument) :
    (l.flatMap (o.settingsOf config)).filter (·.argument == a) = if a ∈ l then o.settingsOf config a else [] := by
  induction l with
  | nil => rfl
  | cons b l ih =>
    obtain ⟨hb, hl⟩ := List.nodup_cons.1 hl
    rw [List.flatMap_cons, List.filter_append, ih hl]
    by_cases hba : b = a
    · subst hba
      have hall : (o.settingsOf config b).filter (·.argument == b) = o.settingsOf config b :=
        List.filter_eq_self.2 fun x hx => beq_iff_eq.2 (argument_of_mem_settingsOf hx)
      rw [hall, if_neg hb, if_pos List.mem_cons_self, List.append_nil]
    · have hnone : (o.settingsOf config b).filter (·.argument == a) = [] :=
        List.filter_eq_nil_iff.2 fun x hx h => hba ((argument_of_mem_settingsOf hx).symm.trans (beq_iff_eq.1 h))
      rw [hnone, List.nil_append]
      simp only [List.mem_cons, Ne.symm hba, false_or]

theorem filter_settings (o : Overrides) (config : Option Path) (a : Argument) :
    (o.settings config).filter (·.argument == a) = o.settingsOf config a := by
  rw [settings, filter_flatMap_settingsOf (by decide)]
  split_ifs with ha
  · rfl
  · cases a <;> first | rfl | exact absurd (by decide) ha

end Overrides

/-! ## What settings give together -/

namespace CommandLine

variable {xs : List Setting} {o : Overrides} {config : Option Path} {a : Argument}

namespace Setting

theorem settingsOf_overrides (ha : a ∈ Overrides.arguments) (config : Option Path) (xs : List Setting) :
    (overrides xs).settingsOf config a =
      if a.isRepeatable then xs.filter (·.argument == a) else (xs.filter (·.argument == a)).getLast?.toList := by
  induction xs using List.reverseRecOn with
  | nil => cases a <;> first | rfl | exact absurd ha (by decide)
  | append_singleton xs x ih =>
    rw [overrides, List.foldl_append]
    change (lay (overrides xs) x).settingsOf config a = _
    rw [Overrides.settingsOf_lay ha, ih, List.filter_append, List.filter_singleton]
    by_cases hx : x.argument = a
    · rw [if_pos hx, beq_iff_eq.2 hx, cond_true, List.getLast?_concat]
      cases a.isRepeatable <;> rfl
    · rw [if_neg hx, beq_false_of_ne hx, cond_false, List.append_nil]

theorem toList_getLast? {α : Type} {l : List α} (h : l.length ≤ 1) : l.getLast?.toList = l := by
  rcases l with _ | ⟨b, _ | ⟨c, l⟩⟩
  · rfl
  · rfl
  · simp at h

theorem overrides_eq (h : ∀ a ∈ Overrides.arguments, xs.filter (·.argument == a) = o.settingsOf config a) :
    overrides xs = o := by
  refine Overrides.ext_settingsOf config fun a ha => ?_
  rw [settingsOf_overrides ha, h a ha]
  cases hr : a.isRepeatable with
  | true => rfl
  | false => exact toList_getLast? (Overrides.length_settingsOf hr)

theorem configPath?_filter (xs : List Setting) :
    configPath? (xs.filter (·.argument == .config)) = configPath? xs := by
  induction xs with
  | nil => rfl
  | cons x xs ih =>
    rw [List.filter_cons]
    cases x <;> first | exact ih | rfl

theorem configPath?_eq (h : xs.filter (·.argument == .config) = o.settingsOf config .config) :
    configPath? xs = config := by
  rw [← configPath?_filter, h]
  cases config <;> rfl

end Setting

/-! ## Command lines -/

theorem path?_of_mem_settingsOf {x : Setting} {p : Path} (hx : x ∈ o.settingsOf config a) (hp : p ∈ x.path?) :
    p ∈ config.toList ++ o.directories := by
  obtain rfl := Overrides.argument_of_mem_settingsOf hx
  have hgiven {given : Option Path} {mk : Path → Setting} (hmk : ∀ q, (mk q).path? = some q)
      (hx : x ∈ given.toList.map mk) : p ∈ given := by
    obtain ⟨q, hq, rfl⟩ := List.mem_map.1 hx
    rw [hmk, Option.mem_some_iff] at hp
    exact hp ▸ Option.mem_toList.1 hq
  simp only [Overrides.directories, List.mem_append, Option.mem_toList]
  cases x with
  | config _ => exact Or.inl (hgiven (fun _ => rfl) hx)
  | sourceDir _ => exact Or.inr (Or.inl (Or.inl (hgiven (fun _ => rfl) hx)))
  | outputDir _ => exact Or.inr (Or.inl (Or.inr (hgiven (fun _ => rfl) hx)))
  | libDir _ => exact Or.inr (Or.inr (hgiven (fun _ => rfl) hx))
  | _ => cases hp

/-- An order of the settings that keeps the order of those that may be repeated gives each argument the same. -/
theorem filter_eq_settingsOf (hperm : xs.Perm (o.settings config))
    (horder : ∀ a : Argument, a.isRepeatable = true →
      xs.filter (·.argument == a) = (o.settings config).filter (·.argument == a)) (a : Argument) :
    xs.filter (·.argument == a) = o.settingsOf config a := by
  rw [← Overrides.filter_settings]
  cases hr : a.isRepeatable with
  | true => exact horder a hr
  | false =>
    have hfilter := hperm.filter (·.argument == a)
    rw [Overrides.filter_settings] at hfilter ⊢
    have hlen : (o.settingsOf config a).length ≤ 1 := Overrides.length_settingsOf hr
    generalize o.settingsOf config a = given at hfilter hlen
    rcases given with _ | ⟨x, _ | ⟨y, given⟩⟩
    · exact hfilter.eq_nil
    · exact List.perm_singleton.1 hfilter
    · simp at hlen

namespace Invocation

/-- **Overrides that are written as arguments, and the path of a configuration file, are read again as they are, in
whichever order they come, if those that may be repeated keep theirs.** -/
theorem ofArguments_written (first : Bytes) (hpaths : ∀ p ∈ config.toList ++ o.directories, p.bytes ≠ [])
    (hperm : xs.Perm (o.settings config))
    (horder : ∀ a : Argument, a.isRepeatable = true →
      xs.filter (·.argument == a) = (o.settings config).filter (·.argument == a)) :
    ofArguments (commandLine first .build (xs.map Setting.written)) =
      .ok { verbosity := 0, quiet := false, task := .build config o } := by
  have hfilter := filter_eq_settingsOf hperm horder
  have hmem {x : Setting} (hx : x ∈ xs) : x ∈ o.settingsOf config x.argument := by
    rw [← hfilter]
    exact List.mem_filter.2 ⟨hx, beq_self_eq_true _⟩
  have hscope : ∀ x ∈ xs, x.argument ∈ Scope.build.arguments := by
    intro x hx
    obtain ⟨a, ha, hxa⟩ := List.mem_flatMap.1 (hperm.subset hx)
    rwa [Overrides.argument_of_mem_settingsOf hxa]
  have hnonempty : ∀ x ∈ xs, ∀ p ∈ x.path?, p.bytes ≠ [] := fun x hx p hp =>
    hpaths p (path?_of_mem_settingsOf (hmem hx) hp)
  have hone (a : Argument) (ha : a.isRepeatable = false) : (xs.filter (·.argument == a)).length ≤ 1 := by
    rw [hfilter]
    exact Overrides.length_settingsOf ha
  have hverbose : Setting.verbose ∉ xs := fun hx => nomatch hmem hx
  have hquiet : Setting.quiet ∉ xs := fun hx => nomatch hmem hx
  have hread : Scope.build.read (calledName? [first]) (xs.map Setting.written) = .ok xs :=
    Scope.read_written (by decide) hscope hnonempty hone (Scope.clash?_eq_none hverbose hquiet)
  have htask : readTask (calledName? [first]) .build (xs.map Setting.written) = .ok (xs, .build config o) := by
    refine bind_eq_ok.2 ⟨xs, hread, ?_⟩
    rw [Setting.configPath?_eq (hfilter .config), Setting.overrides_eq fun a _ => hfilter a]
    rfl
  rw [ofArguments_verb, htask]
  change Except.ok _ = Except.ok _
  dsimp only
  rw [verbosityOf_nil hverbose, Bool.eq_false_iff.2 (mt List.contains_iff_mem.1 hquiet)]

/-- Texts that are empty or look like arguments, the greatest number, and a path that is no text. -/
def oddOverrides : Overrides where
  sourceDir := some ⟨[dash, 0xFF, equals]⟩
  includes := ["", "--exclude=x"]
  excludes := ["-q"]
  noDefaultExcludes := true
  messageFormat := some .vs2005
  minSwitchAlts := some 4294967295
  toolArgs := ["--", "=é", "--"]

/-- They come between one another. -/
def oddSettings : List Setting :=
  [.toolArg "--", .minSwitchAlts 4294967295, .includePattern "", .noDefaultExcludes, .toolArg "=é",
    .excludePattern "-q", .config (.ofString "-c"), .includePattern "--exclude=x", .messageFormat .vs2005,
    .toolArg "--", .sourceDir ⟨[dash, 0xFF, equals]⟩]

theorem ofArguments_written_odd :
    ofArguments
      (["grist", "build", "--tool-arg=--", "--min-switch-alts=4294967295", "--include=", "--no-default-excludes",
        "--tool-arg==é", "--exclude=-q", "--config=-c", "--include=--exclude=x", "--message-format=vs2005",
        "--tool-arg=--"].map Utf8.encode ++ [Utf8.encode "--source-dir=" ++ [dash, 0xFF, equals]]) =
      .ok { verbosity := 0, quiet := false, task := .build (some (.ofString "-c")) oddOverrides } := by
  have hpaths : ∀ p ∈ (some (Path.ofString "-c")).toList ++ oddOverrides.directories, p.bytes ≠ [] :=
    List.forall_mem_cons.2 ⟨by decide, List.forall_mem_singleton.2 (List.cons_ne_nil _ _)⟩
  have hperm : oddSettings.Perm (oddOverrides.settings (some (.ofString "-c"))) := by decide
  have horder (a : Argument) (_ : a.isRepeatable = true) : oddSettings.filter (·.argument == a) =
      (oddOverrides.settings (some (.ofString "-c"))).filter (·.argument == a) := by
    rw [Overrides.filter_settings]
    cases a <;> rfl
  exact ofArguments_written (Utf8.encode "grist") hpaths hperm horder

end Invocation

end CommandLine

end GrammarBatch
