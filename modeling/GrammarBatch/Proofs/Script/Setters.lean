import GrammarBatch.Proofs.Glob.PatternSet
import GrammarBatch.Proofs.Glob.Respelled
import GrammarBatch.Proofs.Path.Parts
import GrammarBatch.Script.Basic
import Mathlib

/-!
# Calls of setters

A build script wants what its calls gave last, and every pattern that they gave. The order of other calls, calls
over again and the name of the variable make no difference.

* `Setter.last?`, `BuildScript.ofSetters_eq`: the last value of each setter, and the script in terms of them;
* `BuildConfig.assembled`: the configuration that the calls describe before any directory is read;
* `Setter.Agree`, `Setter.Step`: calls that give the same, and what may be done to them;
* **`BuildScript.configFor_ofSetters`**: the configuration for the directories that Cargo gives.
-/

namespace GrammarBatch

/-! ## What calls give -/

namespace Setter

variable {α : Type} {given : Setter → Option α} {calls calls' : List Setter} {x y : Setter}

/-- The source directory that a call gives. -/
def sourceDir? : Setter → Option Path
  | sourceDir p => some p
  | _ => none

/-- The output directory that a call gives. -/
def outputDir? : Setter → Option Path
  | outputDir p => some p
  | _ => none

/-- The library directory that a call gives. -/
def libDir? : Setter → Option Path
  | libDir p => some p
  | _ => none

/-- The pattern of wanted grammars that a call gives. -/
def includePattern? : Setter → Option String
  | includePattern s => some s
  | _ => none

/-- The pattern of unwanted grammars that a call gives. -/
def excludePattern? : Setter → Option String
  | excludePattern s => some s
  | _ => none

/-- Whether a call asks for the default excludes. -/
def defaultExcludes? : Setter → Option Bool
  | defaultExcludes on => some on
  | _ => none

/-- The options that a call gives. -/
def options? : Setter → Option ToolOptions
  | options o => some o
  | _ => none

/-- The command that a call gives. -/
def tool? : Setter → Option ToolCommand
  | tool c => some c
  | _ => none

/-- The variable that a call names. -/
def outputVariable? : Setter → Option String
  | outputVariable name => some name
  | _ => none

/-- The last value that is given. -/
def last? (given : Setter → Option α) (calls : List Setter) : Option α := (calls.filterMap given).getLast?

theorem last?_concat (given : Setter → Option α) (calls : List Setter) (x : Setter) :
    last? given (calls ++ [x]) = (given x).or (last? given calls) := by
  rw [last?, last?, List.filterMap_append, List.getLast?_append]
  cases hx : given x <;> simp [hx]

theorem mem_filterMap_includePattern? {t : String} :
    t ∈ calls.filterMap includePattern? ↔ includePattern t ∈ calls := by
  have hgiven (x : Setter) : x.includePattern? = some t ↔ x = includePattern t := by
    cases x <;> simp [includePattern?]
  simp only [List.mem_filterMap, hgiven, exists_eq_right]

theorem mem_filterMap_excludePattern? {t : String} :
    t ∈ calls.filterMap excludePattern? ↔ excludePattern t ∈ calls := by
  have hgiven (x : Setter) : x.excludePattern? = some t ↔ x = excludePattern t := by
    cases x <;> simp [excludePattern?]
  simp only [List.mem_filterMap, hgiven, exists_eq_right]

/-! ## Calls that give the same -/

/-- Calls that give the same values last, and the same patterns. -/
structure Agree (calls calls' : List Setter) : Prop where
  sourceDir : last? sourceDir? calls = last? sourceDir? calls'
  outputDir : last? outputDir? calls = last? outputDir? calls'
  libDir : last? libDir? calls = last? libDir? calls'
  includes : ∀ t, includePattern t ∈ calls ↔ includePattern t ∈ calls'
  excludes : ∀ t, excludePattern t ∈ calls ↔ excludePattern t ∈ calls'
  defaultExcludes : last? defaultExcludes? calls = last? defaultExcludes? calls'
  options : last? options? calls = last? options? calls'
  tool : last? tool? calls = last? tool? calls'

/-- Whether a later call of the setter stands in the place of this one. -/
def isReplaced : Setter → Bool
  | includePattern _ | excludePattern _ | outputVariable _ => false
  | _ => true

/-- What may be done to calls. -/
inductive Step : List Setter → List Setter → Prop where
  /-- Two calls change places, unless one would stand in the place of the other. -/
  | swap (front back : List Setter) {x y : Setter} (h : x.ctorIdx ≠ y.ctorIdx ∨ x.isReplaced = false) :
    Step (front ++ x :: y :: back) (front ++ y :: x :: back)
  /-- A pattern is given once more, or a variable is named. -/
  | again (front back : List Setter) {x : Setter} (h : x.isReplaced = false)
    (hx : x ∈ front ++ back ∨ ∃ name, x = outputVariable name) : Step (front ++ back) (front ++ x :: back)

/-- Only calls of one setter give a value, and each in place of those before it. -/
def OfOne (given : Setter → Option α) : Prop :=
  ∀ x y, given x ≠ none → given y ≠ none → x.ctorIdx = y.ctorIdx ∧ x.isReplaced = true

theorem last?_of_step (hgiven : OfOne given) (h : Step calls calls') : last? given calls = last? given calls' := by
  have hnone {x : Setter} (hx : x.isReplaced = false) : given x = none := by
    by_contra hsome
    rw [(hgiven x x hsome hsome).2] at hx
    cases hx
  refine congrArg List.getLast? ?_
  cases h with
  | swap front back h =>
    rename_i x y
    have heither : given x = none ∨ given y = none := by
      rcases h with h | h
      · by_contra hboth
        obtain ⟨hx, hy⟩ := not_or.1 hboth
        exact h (hgiven x y hx hy).1
      · exact Or.inl (hnone h)
    rcases heither with h | h <;> simp [List.filterMap_append, List.filterMap_cons, h]
  | again front back h =>
    simp [List.filterMap_append, hnone h]

theorem mem_iff_of_step (hx : ∀ name, x ≠ outputVariable name) (h : Step calls calls') :
    x ∈ calls ↔ x ∈ calls' := by
  cases h with
  | swap front back h => simp only [List.mem_append, List.mem_cons, or_left_comm]
  | again front back h hy =>
    rename_i y
    have hmem (hxy : x = y) : x ∈ front ++ back := by
      subst hxy
      exact hy.resolve_right fun ⟨name, hname⟩ => hx name hname
    simp only [List.mem_append, List.mem_cons] at hmem ⊢
    tauto

theorem Agree.of_step (h : Step calls calls') : Agree calls calls' := by
  refine ⟨last?_of_step ?_ h, last?_of_step ?_ h, last?_of_step ?_ h, fun t => mem_iff_of_step (by simp) h,
    fun t => mem_iff_of_step (by simp) h, last?_of_step ?_ h, last?_of_step ?_ h, last?_of_step ?_ h⟩
  all_goals
    intro x y hx hy
    cases x <;> first | exact absurd rfl hx | cases y <;> first | exact absurd rfl hy | exact ⟨rfl, rfl⟩

end Setter

open Setter (last? last?_concat mem_filterMap_includePattern? mem_filterMap_excludePattern?)

/-- The script wants what was given last, and every pattern. -/
theorem BuildScript.ofSetters_eq (calls : List Setter) : ofSetters calls =
    { sourceDir := last? Setter.sourceDir? calls
      outputDir := last? Setter.outputDir? calls
      libDir := last? Setter.libDir? calls
      includes := .ofList (calls.filterMap Setter.includePattern?)
      excludes := .ofList (calls.filterMap Setter.excludePattern?)
      defaultExcludes := (last? Setter.defaultExcludes? calls).getD true
      options := (last? Setter.options? calls).getD {}
      tool := (last? Setter.tool? calls).getD {}
      outputVariable := (last? Setter.outputVariable? calls).getD Directive.defaultVariable } := by
  induction calls using List.reverseRecOn with
  | nil => rfl
  | append_singleton calls x ih =>
    have hset : ofSetters (calls ++ [x]) = (ofSetters calls).set x := List.foldl_concat ..
    rw [hset, ih]
    simp only [last?_concat, List.filterMap_append, PatternSet.ofList, PatternSet.insertAll_append]
    cases x <;> rfl

/-- The configuration that calls describe, with the usual settings where they give none. -/
def BuildConfig.assembled (calls : List Setter) : BuildConfig where
  sourceDir := (last? Setter.sourceDir? calls).getD ({} : BuildConfig).sourceDir
  outputDir := (last? Setter.outputDir? calls).getD ({} : BuildConfig).outputDir
  libDir := last? Setter.libDir? calls
  includes := .ofList (calls.filterMap Setter.includePattern?)
  excludes := .ofList (calls.filterMap Setter.excludePattern?)
  defaultExcludes := (last? Setter.defaultExcludes? calls).getD ({} : BuildConfig).defaultExcludes
  options := (last? Setter.options? calls).getD ({} : BuildConfig).options
  tool := (last? Setter.tool? calls).getD ({} : BuildConfig).tool

theorem BuildConfig.assembled_congr {calls calls' : List Setter} (h : Setter.Agree calls calls') :
    assembled calls = assembled calls' := by
  have hincludes : PatternSet.ofList (calls.filterMap Setter.includePattern?) =
      .ofList (calls'.filterMap Setter.includePattern?) :=
    PatternSet.ext_texts fun t => by
      simp only [PatternSet.mem_texts_ofList, mem_filterMap_includePattern?, h.includes t]
  have hexcludes : PatternSet.ofList (calls.filterMap Setter.excludePattern?) =
      .ofList (calls'.filterMap Setter.excludePattern?) :=
    PatternSet.ext_texts fun t => by
      simp only [PatternSet.mem_texts_ofList, mem_filterMap_excludePattern?, h.excludes t]
  rw [assembled, h.sourceDir, h.outputDir, h.libDir, hincludes, hexcludes, h.defaultExcludes, h.options, h.tool]
  rfl

theorem Path.join_of_isAbsolute {p q : Path} (hq : q.isAbsolute = true) : p.join q = q := if_pos hq

theorem Path.join_src_grammars (p : Path) :
    (p.join (.ofString "src")).join (.ofString "grammars") = p.join (.ofString "src/grammars") :=
  join_join p (by decide) (by decide) (by decide)

/-! ## The configuration -/

namespace BuildScript

variable {calls calls' : List Setter} {manifest out : Path}

theorem configFor_eq (calls : List Setter) (manifest out : Path) :
    (ofSetters calls).configFor manifest out =
      { (BuildConfig.assembled calls).rootedAt manifest with
        outputDir := ((last? Setter.outputDir? calls).map manifest.join).getD (out.join (.ofString "grammars")) } := by
  rw [ofSetters_eq, configFor, BuildConfig.rootedAt, BuildConfig.assembled]
  congr 1
  · cases last? Setter.sourceDir? calls with
    | none => exact Path.join_src_grammars manifest
    | some p => rfl
  · cases last? Setter.outputDir? calls <;> rfl

theorem configFor_congr (h : Setter.Agree calls calls') (manifest out : Path) :
    (ofSetters calls).configFor manifest out = (ofSetters calls').configFor manifest out := by
  rw [configFor_eq, configFor_eq, BuildConfig.assembled_congr h, h.outputDir]

theorem configFor_of_steps (h : Relation.EqvGen Setter.Step calls calls') (manifest out : Path) :
    (ofSetters calls).configFor manifest out = (ofSetters calls').configFor manifest out := by
  let config (calls : List Setter) : BuildConfig := (ofSetters calls).configFor manifest out
  have hstep (calls calls' : List Setter) (h : Setter.Step calls calls') : config calls = config calls' :=
    configFor_congr (.of_step h) manifest out
  exact Pattern.eq_of_eqvGen hstep h

/-- **The configuration of a build script is the one that its calls describe, read from the directory of the manifest,
but for an output directory that is not given. So calls that give the same values last and the same patterns have the
same configuration, as do calls that steps lead to, and directories from the root are kept.** -/
theorem configFor_ofSetters (calls : List Setter) (manifest out : Path) :
    (ofSetters calls).configFor manifest out =
      { (BuildConfig.assembled calls).rootedAt manifest with
        outputDir := ((last? Setter.outputDir? calls).map manifest.join).getD (out.join (.ofString "grammars")) } ∧
    (∀ calls', Setter.Agree calls calls' ∨ Relation.EqvGen Setter.Step calls calls' →
      (ofSetters calls).configFor manifest out = (ofSetters calls').configFor manifest out) ∧
    ∀ p : Path, p.isAbsolute = true →
      (last? Setter.sourceDir? calls = some p → ((ofSetters calls).configFor manifest out).sourceDir = p) ∧
      (last? Setter.outputDir? calls = some p → ((ofSetters calls).configFor manifest out).outputDir = p) ∧
      (last? Setter.libDir? calls = some p → ((ofSetters calls).configFor manifest out).libDir = some p) := by
  refine ⟨configFor_eq calls manifest out, ?_, fun p hp => ?_⟩
  · rintro calls' (h | h)
    · exact configFor_congr h manifest out
    · exact configFor_of_steps h manifest out
  · rw [configFor_eq]
    refine ⟨fun h => ?_, fun h => ?_, fun h => ?_⟩
    · change manifest.join ((last? Setter.sourceDir? calls).getD _) = p
      rw [h, Option.getD_some, Path.join_of_isAbsolute hp]
    · change ((last? Setter.outputDir? calls).map manifest.join).getD _ = p
      rw [h, Option.map_some, Option.getD_some, Path.join_of_isAbsolute hp]
    · change (last? Setter.libDir? calls).map manifest.join = some p
      rw [h, Option.map_some, Path.join_of_isAbsolute hp]

/-- A library directory from the root, and patterns. -/
def someCalls : List Setter :=
  [.sourceDir (.ofString "grammar"), .libDir (.ofString "/usr/share/antlr3/lib"), .excludePattern "wip/**"]

/-- The same in another order, with a pattern twice and the name of the variable. -/
def scatteredCalls : List Setter :=
  [.excludePattern "wip/**", .sourceDir (.ofString "grammar"), .outputVariable "GRAMMARS", .excludePattern "wip/**",
    .libDir (.ofString "/usr/share/antlr3/lib")]

theorem configFor_ofSetters_scattered :
    (ofSetters scatteredCalls).configFor (.ofString "/work") (.ofString "/out/") =
      { sourceDir := .ofString "/work/grammar"
        outputDir := .ofString "/out/grammars"
        libDir := some (.ofString "/usr/share/antlr3/lib")
        excludes := .ofList ["wip/**"] } := by
  obtain ⟨hconfig, hsame, -⟩ := configFor_ofSetters someCalls (.ofString "/work") (.ofString "/out/")
  have hagain : Setter.Step someCalls (.excludePattern "wip/**" :: someCalls) :=
    .again [] someCalls rfl (Or.inl (by simp [someCalls]))
  have hnamed : Setter.Step (.excludePattern "wip/**" :: someCalls)
      (.excludePattern "wip/**" :: .sourceDir (.ofString "grammar") :: .outputVariable "GRAMMARS" ::
        someCalls.tail) :=
    .again [_, _] someCalls.tail rfl (Or.inr ⟨_, rfl⟩)
  have hswap : Setter.Step (.excludePattern "wip/**" :: .sourceDir (.ofString "grammar") ::
      .outputVariable "GRAMMARS" :: someCalls.tail) scatteredCalls :=
    .swap [_, _, _] [] (Or.inl (by decide))
  have hsteps : Relation.EqvGen Setter.Step someCalls scatteredCalls :=
    .trans _ _ _ (.trans _ _ _ (.rel _ _ hagain) (.rel _ _ hnamed)) (.rel _ _ hswap)
  rw [← hsame scatteredCalls (Or.inr hsteps), hconfig]
  rfl

end BuildScript

end GrammarBatch
