import GrammarBatch.Config.Overrides
import GrammarBatch.Proofs.Glob.PatternSet
import Mathlib

/-!
# Overrides over overrides

There are four ways in which overrides change a configuration: a value that is given replaces the one there, a list
with anything in it replaces the one there, excludes are added, and a switch turns one way. So overrides may be laid
over each other before they are laid over a configuration.

* `Overrides.followedBy`, `Overrides.layered`: overrides with others over them, and any number of them;
* `Overrides.apply_followedBy`, `Overrides.apply_layered`: they change as much as one after the other;
* `Overrides.apply_apply`: the same ones over again change nothing;
* `Overrides.Given`, `Overrides.Kept`, `Overrides.OneWay`: what a layer gives, what no layer gives, and what no layer
  takes back;
* **`Overrides.apply_layers`**: overrides are layers.
-/

namespace GrammarBatch

namespace Overrides

variable {o first later : Overrides} {c : BuildConfig} {layers : List Overrides}

/-! ## Overrides laid over one another -/

/-- The overrides, and others laid over them. -/
def followedBy (first later : Overrides) : Overrides where
  sourceDir := later.sourceDir.or first.sourceDir
  outputDir := later.outputDir.or first.outputDir
  libDir := later.libDir.or first.libDir
  includes := if later.includes.isEmpty then first.includes else later.includes
  excludes := first.excludes ++ later.excludes
  noDefaultExcludes := first.noDefaultExcludes || later.noDefaultExcludes
  report := first.report || later.report
  printGrammar := first.printGrammar || later.printGrammar
  debug := first.debug || later.debug
  profile := first.profile || later.profile
  nfa := first.nfa || later.nfa
  dfa := first.dfa || later.dfa
  trace := first.trace || later.trace
  messageFormat := later.messageFormat.or first.messageFormat
  quietTool := first.quietTool || later.quietTool
  maxSwitchCaseLabels := later.maxSwitchCaseLabels.or first.maxSwitchCaseLabels
  minSwitchAlts := later.minSwitchAlts.or first.minSwitchAlts
  tool := later.tool.or first.tool
  toolArgs := if later.toolArgs.isEmpty then first.toolArgs else later.toolArgs

/-- The overrides of all layers, the lowest first. -/
def layered (layers : List Overrides) : Overrides := layers.foldl followedBy {}

theorem ite_isEmpty_ite {α β : Type} (first later : List α) (b : β) (f : List α → β) :
    (if (if later.isEmpty then first else later).isEmpty then b else f (if later.isEmpty then first else later)) =
      if later.isEmpty then (if first.isEmpty then b else f first) else f later := by
  cases later <;> rfl

theorem apply_nothing (c : BuildConfig) : ({} : Overrides).apply c = c := by
  simp [apply, applyOptions, applyCommand, PatternSet.insertAll]

theorem applyOptions_followedBy (first later : Overrides) (options : ToolOptions) :
    (first.followedBy later).applyOptions options = later.applyOptions (first.applyOptions options) := by
  simp only [applyOptions, followedBy, Option.getD_or, Bool.or_assoc, Bool.not_or, Bool.and_assoc]

theorem applyCommand_followedBy (first later : Overrides) (command : ToolCommand) :
    (first.followedBy later).applyCommand command = later.applyCommand (first.applyCommand command) := by
  unfold applyCommand
  congr 1
  · exact Option.getD_or
  · exact ite_isEmpty_ite first.toolArgs later.toolArgs command.args id

/-- **Overrides that are laid over one another change as much as one after the other.** -/
theorem apply_followedBy (first later : Overrides) (c : BuildConfig) :
    (first.followedBy later).apply c = later.apply (first.apply c) := by
  unfold apply
  congr 1
  · exact Option.getD_or
  · exact Option.getD_or
  · exact Option.or_assoc
  · exact ite_isEmpty_ite first.includes later.includes c.includes .ofList
  · exact PatternSet.insertAll_append ..
  · simp only [followedBy, Bool.not_or, Bool.and_assoc]
  · exact applyOptions_followedBy ..
  · exact applyCommand_followedBy ..

theorem followedBy_self (o : Overrides) : o.followedBy o = { o with excludes := o.excludes ++ o.excludes } := by
  simp [followedBy]

theorem apply_apply (o : Overrides) (c : BuildConfig) : o.apply (o.apply c) = o.apply c := by
  rw [← apply_followedBy, followedBy_self]
  simp only [apply, applyOptions, applyCommand, PatternSet.insertAll_append, PatternSet.insertAll_insertAll]

theorem apply_layered (layers : List Overrides) (c : BuildConfig) :
    (layered layers).apply c = layers.foldl (fun c o => o.apply c) c := by
  induction layers using List.reverseRecOn with
  | nil => exact apply_nothing c
  | append_singleton layers o ih =>
    rw [List.foldl_concat, ← ih, ← apply_followedBy, layered, List.foldl_concat]
    rfl

/-- What no layer gives is not given. -/
theorem layered_eq {α : Type} {given : Overrides → α} {nothing : α} (hnil : given {} = nothing)
    (hstep : ∀ {first later}, given first = nothing → given later = nothing →
      given (first.followedBy later) = nothing) (h : ∀ o ∈ layers, given o = nothing) :
    given (layered layers) = nothing := by
  induction layers using List.reverseRecOn with
  | nil => exact hnil
  | append_singleton layers o ih =>
    rw [layered, List.foldl_concat]
    exact hstep (ih fun o ho => h o (List.mem_append_left _ ho)) (h o (by simp))

/-! ## What overrides give, and what they leave -/

/-- What is given is the configuration's afterwards, and the excludes are those of both. -/
structure Given (o : Overrides) (c c' : BuildConfig) : Prop where
  sourceDir : ∀ d ∈ o.sourceDir, c'.sourceDir = d
  outputDir : ∀ d ∈ o.outputDir, c'.outputDir = d
  libDir : ∀ d ∈ o.libDir, c'.libDir = some d
  includes : o.includes ≠ [] → c'.includes = .ofList o.includes
  excludes : ∀ t, t ∈ c'.excludes.texts ↔ t ∈ o.excludes ∨ t ∈ c.excludes.texts
  defaultExcludes : o.noDefaultExcludes = true → c'.defaultExcludes = false
  report : o.report = true → c'.options.report = true
  printGrammar : o.printGrammar = true → c'.options.printGrammar = true
  debug : o.debug = true → c'.options.debug = true
  profile : o.profile = true → c'.options.profile = true
  nfa : o.nfa = true → c'.options.nfa = true
  dfa : o.dfa = true → c'.options.dfa = true
  trace : o.trace = true → c'.options.trace = true
  messageFormat : ∀ format ∈ o.messageFormat, c'.options.messageFormat = format
  verbose : o.quietTool = true → c'.options.verbose = false
  maxSwitchCaseLabels : ∀ n ∈ o.maxSwitchCaseLabels, c'.options.maxSwitchCaseLabels = n
  minSwitchAlts : ∀ n ∈ o.minSwitchAlts, c'.options.minSwitchAlts = n
  program : ∀ name ∈ o.tool, c'.tool.program = name
  args : o.toolArgs ≠ [] → c'.tool.args = o.toolArgs

theorem given_apply (o : Overrides) (c : BuildConfig) : Given o c (o.apply c) := by
  constructor
  case excludes => exact fun _ => PatternSet.mem_texts_insertAll
  case libDir => exact fun d hd => by rw [apply, Option.mem_def.1 hd, Option.some_or]
  -- every other field is replaced where a value is given for it, and a switch turns the way it is given
  all_goals
    intros
    simp_all [apply, applyOptions, applyCommand]

/-- What no layer gives is kept. -/
structure Kept (layers : List Overrides) (c c' : BuildConfig) : Prop where
  sourceDir : (∀ o ∈ layers, o.sourceDir = none) → c'.sourceDir = c.sourceDir
  outputDir : (∀ o ∈ layers, o.outputDir = none) → c'.outputDir = c.outputDir
  libDir : (∀ o ∈ layers, o.libDir = none) → c'.libDir = c.libDir
  includes : (∀ o ∈ layers, o.includes = []) → c'.includes = c.includes
  excludes : (∀ o ∈ layers, o.excludes = []) → c'.excludes = c.excludes
  defaultExcludes : (∀ o ∈ layers, o.noDefaultExcludes = false) → c'.defaultExcludes = c.defaultExcludes
  report : (∀ o ∈ layers, o.report = false) → c'.options.report = c.options.report
  printGrammar : (∀ o ∈ layers, o.printGrammar = false) → c'.options.printGrammar = c.options.printGrammar
  debug : (∀ o ∈ layers, o.debug = false) → c'.options.debug = c.options.debug
  profile : (∀ o ∈ layers, o.profile = false) → c'.options.profile = c.options.profile
  nfa : (∀ o ∈ layers, o.nfa = false) → c'.options.nfa = c.options.nfa
  dfa : (∀ o ∈ layers, o.dfa = false) → c'.options.dfa = c.options.dfa
  trace : (∀ o ∈ layers, o.trace = false) → c'.options.trace = c.options.trace
  messageFormat : (∀ o ∈ layers, o.messageFormat = none) → c'.options.messageFormat = c.options.messageFormat
  verbose : (∀ o ∈ layers, o.quietTool = false) → c'.options.verbose = c.options.verbose
  maxSwitchCaseLabels : (∀ o ∈ layers, o.maxSwitchCaseLabels = none) →
    c'.options.maxSwitchCaseLabels = c.options.maxSwitchCaseLabels
  minSwitchAlts : (∀ o ∈ layers, o.minSwitchAlts = none) → c'.options.minSwitchAlts = c.options.minSwitchAlts
  program : (∀ o ∈ layers, o.tool = none) → c'.tool.program = c.tool.program
  args : (∀ o ∈ layers, o.toolArgs = []) → c'.tool.args = c.tool.args

theorem kept_layered (layers : List Overrides) (c : BuildConfig) : Kept layers c ((layered layers).apply c) := by
  constructor
  -- one argument for every field: what none of the layers gives is not given by all of them together
  all_goals
    intro h
    have hnothing := layered_eq rfl (by simp +contextual [followedBy]) h
    simp [apply, applyOptions, applyCommand, PatternSet.insertAll, hnothing]

/-- Excludes only grow, and no switch turns back. -/
structure OneWay (c c' : BuildConfig) : Prop where
  excludes : ∀ t ∈ c.excludes.texts, t ∈ c'.excludes.texts
  defaultExcludes : c'.defaultExcludes = true → c.defaultExcludes = true
  report : c.options.report = true → c'.options.report = true
  printGrammar : c.options.printGrammar = true → c'.options.printGrammar = true
  debug : c.options.debug = true → c'.options.debug = true
  profile : c.options.profile = true → c'.options.profile = true
  nfa : c.options.nfa = true → c'.options.nfa = true
  dfa : c.options.dfa = true → c'.options.dfa = true
  trace : c.options.trace = true → c'.options.trace = true
  verbose : c'.options.verbose = true → c.options.verbose = true

theorem oneWay_apply (o : Overrides) (c : BuildConfig) : OneWay c (o.apply c) where
  excludes _ ht := PatternSet.mem_texts_insertAll.2 (Or.inr ht)
  defaultExcludes := Bool.and_elim_left
  report := Bool.or_inl
  printGrammar := Bool.or_inl
  debug := Bool.or_inl
  profile := Bool.or_inl
  nfa := Bool.or_inl
  dfa := Bool.or_inl
  trace := Bool.or_inl
  verbose := Bool.and_elim_left

/-- **Overrides are layers. What one gives is the configuration's afterwards. None change nothing, the same over again
change nothing more, and two change as much as the later laid over the first. However many there are, they keep what
none of them gives, and turn nothing back.** -/
theorem apply_layers (first later : Overrides) (layers : List Overrides) (c : BuildConfig) :
    Given first c (first.apply c) ∧ ({} : Overrides).apply c = c ∧
      first.apply (first.apply c) = first.apply c ∧ later.apply (first.apply c) = (first.followedBy later).apply c ∧
      Kept layers c (layers.foldl (fun c o => o.apply c) c) ∧
      OneWay c (layers.foldl (fun c o => o.apply c) c) := by
  rw [← apply_layered]
  exact ⟨given_apply first c, apply_nothing c, apply_apply first c, (apply_followedBy first later c).symm,
    kept_layered layers c, oneWay_apply _ c⟩

end Overrides

end GrammarBatch
