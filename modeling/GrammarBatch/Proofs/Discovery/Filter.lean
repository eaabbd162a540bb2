import GrammarBatch.Discovery.Filter
import GrammarBatch.Proofs.Glob.PatternSet
import GrammarBatch.Proofs.Path.Names

/-!
# What a filter keeps away from

* `Filter.accepts_of_iff`: the includes and excludes in force, pattern by pattern;
* `Filter.metadataNames`: the reserved directories, beside that of the imports;
* **`Filter.not_accepts_of_head?_imports`**, **`Filter.not_accepts_of_mem_metadata`**: no pattern reaches into
  them;
* **`Filter.head?_imports_of_not_accepts`**: without other excludes nothing else is kept away from.
-/

namespace GrammarBatch.Filter

variable {includes excludes : PatternSet} {withDefaults : Bool} {t : String} {n : Name} {names : List Name}

/-! ## The patterns in force -/

theorem accepts_effectiveExcludes_iff : (effectiveExcludes excludes withDefaults).accepts t = true ↔
    (withDefaults = true ∧ ∃ u ∈ defaultExcludes, (Pattern.parse u).accepts t = true) ∨
      (Pattern.parse importsExclude).accepts t = true ∨ excludes.accepts t = true := by
  unfold effectiveExcludes
  cases withDefaults with
  | false =>
    rw [if_neg Bool.false_ne_true, PatternSet.accepts_insert]
    simp
  | true =>
    rw [if_pos rfl, PatternSet.accepts_insertAll, PatternSet.accepts_insert]
    simp

theorem accepts_of_iff : (of includes excludes withDefaults).accepts t = true ↔
    (effectiveIncludes includes).accepts t = true ∧
      ¬ (effectiveExcludes excludes withDefaults).accepts t = true := by
  rw [accepts, Bool.and_eq_true, Bool.not_eq_true', Bool.not_eq_true]
  rfl

theorem accepts_importsExclude_iff : (Pattern.parse importsExclude).accepts t = true ↔
    isRooted t.toList = false ∧ (segmentsOf t.toList).head? = some "imports".toList := by
  have hsegments : (Pattern.parse importsExclude).segments = [.literal "imports".toList, .anyDepth] := by
    decide
  have hrooted : (Pattern.parse importsExclude).rooted = false := by decide
  rw [Pattern.accepts_eq, hsegments, hrooted, Bool.and_eq_true, beq_iff_eq, Pattern.acceptsSegments_below]

/-! ## The imports directory -/

theorem toList_display_importsName : importsName.display.toList = "imports".toList := by decide

theorem display_eq_imports_iff : n.display.toList = "imports".toList ↔ n = importsName := by
  have hascii : ∀ c ∈ "imports".toList, c.toNat < 0x80 := by simp
  rw [Name.toList_display, Utf8.lossy_eq_iff hascii]
  exact ⟨fun h => Name.bytes_injective h, fun h => congrArg Name.bytes h⟩

theorem excludes_of_head?_imports (h : names.head? = some importsName) :
    (effectiveExcludes excludes withDefaults).accepts (Path.ofNames names).display = true := by
  obtain ⟨rest, rfl⟩ := List.head?_eq_some_iff.1 h
  have hrooted : isRooted (Path.ofNames (importsName :: rest)).display.toList = false := by
    rw [Bool.eq_false_iff, ne_eq, Path.isRooted_display_ofNames]
    decide
  have hhead : (segmentsOf (Path.ofNames (importsName :: rest)).display.toList).head? =
      some "imports".toList := by
    rw [Path.segmentsOf_display_ofNames, List.flatMap_cons, Name.segmentsOf_display (by decide),
      toList_display_importsName]
    rfl
  exact accepts_effectiveExcludes_iff.2 (Or.inr (Or.inl (accepts_importsExclude_iff.2 ⟨hrooted, hhead⟩)))

/-- **Whatever the includes, nothing below the imports directory is accepted.** -/
theorem not_accepts_of_head?_imports (h : names.head? = some importsName) :
    (of includes excludes withDefaults).accepts (Path.ofNames names).display = false := by
  rw [Bool.eq_false_iff, ne_eq, accepts_of_iff, not_and, not_not]
  exact fun _ => excludes_of_head?_imports h

/-- **Without other excludes only what is below the imports directory is rejected.** -/
theorem head?_imports_of_not_accepts (hinc : (effectiveIncludes includes).accepts t = true)
    (h : (of includes ∅ false).accepts t = false) :
    (segmentsOf t.toList).head? = some "imports".toList := by
  rw [Bool.eq_false_iff, ne_eq, accepts_of_iff, accepts_effectiveExcludes_iff] at h
  have hex : (Pattern.parse importsExclude).accepts t = true := by
    by_contra hno
    refine h ⟨hinc, ?_⟩
    rintro (⟨hd, -⟩ | hex | hex)
    · cases hd
    · exact hno hex
    · rw [PatternSet.accepts_empty] at hex
      cases hex
  exact (accepts_importsExclude_iff.1 hex).2

theorem head?_imports_of_segmentsOf (hplain : ∀ n ∈ names, backslash ∉ n.bytes)
    (h : (segmentsOf (Path.ofNames names).display.toList).head? = some "imports".toList) :
    names.head? = some importsName := by
  rw [Path.segmentsOf_display_ofNames] at h
  cases names with
  | nil => cases h
  | cons n names =>
    rw [List.flatMap_cons, Name.segmentsOf_display (hplain n List.mem_cons_self), List.singleton_append,
      List.head?_cons, Option.some.injEq, display_eq_imports_iff] at h
    rw [h, List.head?_cons]

/-! ## Version control data -/

/-- The directories of version control systems. -/
def metadataNames : List Name :=
  [.ofString "CVS", .ofString ".svn", .ofString ".git", .ofString ".hg", .ofString ".bzr"]

theorem exists_exclude_of_mem_metadata (h : n ∈ metadataNames) :
    ∃ u ∈ defaultExcludes, (Pattern.parse u).rooted = false ∧
      (Pattern.parse u).segments = [.anyDepth, .literal n.display.toList, .anyDepth] := by
  revert n
  decide

theorem backslash_notMem_of_mem_metadata (h : n ∈ metadataNames) : backslash ∉ n.bytes := by
  revert n
  decide

/-- The default excludes take everything in such a directory, however deep it lies. -/
theorem excludes_of_mem_metadata (hfirst : ∀ n ∈ names.head?, n.bytes.head? ≠ some backslash)
    (hn : n ∈ names) (hm : n ∈ metadataNames) :
    (effectiveExcludes excludes true).accepts (Path.ofNames names).display = true := by
  obtain ⟨u, hu, hrooted, hsegments⟩ := exists_exclude_of_mem_metadata hm
  have hpath : isRooted (Path.ofNames names).display.toList = false := by
    cases names with
    | nil => rfl
    | cons first rest =>
      rw [Bool.eq_false_iff, ne_eq, Path.isRooted_display_ofNames]
      exact hfirst first rfl
  have hmem : n.display.toList ∈ segmentsOf (Path.ofNames names).display.toList := by
    rw [Path.segmentsOf_display_ofNames]
    refine List.mem_flatMap.2 ⟨n, hn, ?_⟩
    rw [Name.segmentsOf_display (backslash_notMem_of_mem_metadata hm)]
    exact List.mem_singleton.2 rfl
  have hu' : (Pattern.parse u).accepts (Path.ofNames names).display = true := by
    rw [Pattern.accepts_eq, hrooted, hsegments, hpath, beq_self_eq_true, Bool.true_and,
      Pattern.acceptsSegments_anywhere]
    exact hmem
  exact accepts_effectiveExcludes_iff.2 (Or.inl ⟨rfl, u, hu, hu'⟩)

/-- **With the default excludes, nothing in such a directory is accepted.** -/
theorem not_accepts_of_mem_metadata (hfirst : ∀ n ∈ names.head?, n.bytes.head? ≠ some backslash)
    (hn : n ∈ names) (hm : n ∈ metadataNames) :
    (of includes excludes true).accepts (Path.ofNames names).display = false := by
  rw [Bool.eq_false_iff, ne_eq, accepts_of_iff, not_and, not_not]
  exact fun _ => excludes_of_mem_metadata hfirst hn hm

end GrammarBatch.Filter
