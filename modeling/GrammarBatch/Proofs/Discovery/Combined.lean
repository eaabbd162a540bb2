import GrammarBatch.Proofs.Discovery.Scan
import GrammarBatch.Proofs.Glob.PatternMap

/-!
# Scans with combined patterns

Two sets of includes find what one of them finds, and two sets of excludes leave what both of them leave. Every
filter has excludes of its own, and the empty set of includes stands for another one; neither disturbs this, as
long as the includes are there.

* `Filter.accepts_union_includes`, `Filter.accepts_union_excludes`: the same for the judgement on one file;
* `Filter.eq_merge_of_mem_iff`, `Filter.eq_inter_of_mem_iff`: lists of grammars in order are known by what is in
  them;
* **`Filter.scan_combined`**: unions of includes and of excludes become unions and intersections of what is found.
-/

namespace GrammarBatch.Filter

variable {includes more excludes others : PatternSet} {withDefaults : Bool} {t : String}

/-! ## The judgement on one file -/

theorem effectiveIncludes_of_nonempty (h : includes.isEmpty = false) : effectiveIncludes includes = includes := by
  rw [effectiveIncludes, h, if_neg Bool.false_ne_true]

theorem isEmpty_union (h : includes.isEmpty = false) : (includes.union more).isEmpty = false := by
  have hempty (s : PatternSet) : s.isEmpty = false ↔ ∃ u, u ∈ s.texts := by
    rw [PatternSet.isEmpty, List.isEmpty_eq_false_iff_exists_mem, PatternSet.texts]
    simp only [List.mem_map]
    constructor
    · rintro ⟨p, hp⟩
      exact ⟨p.source, p, hp, rfl⟩
    · rintro ⟨_, p, hp, -⟩
      exact ⟨p, hp⟩
  obtain ⟨u, hu⟩ := (hempty includes).1 h
  exact (hempty _).2 ⟨u, PatternSet.mem_texts_union.2 (Or.inl hu)⟩

theorem accepts_union_includes (h : includes.isEmpty = false) (h' : more.isEmpty = false) :
    (of (includes.union more) excludes withDefaults).accepts t = true ↔
      (of includes excludes withDefaults).accepts t = true ∨ (of more excludes withDefaults).accepts t = true := by
  rw [accepts_of_iff, accepts_of_iff, accepts_of_iff, effectiveIncludes_of_nonempty h,
    effectiveIncludes_of_nonempty h', effectiveIncludes_of_nonempty (isEmpty_union h), PatternSet.accepts_union,
    Bool.or_eq_true, or_and_right]

/-- More excludes leave what both sets leave, as both keep the reserved ones. -/
theorem accepts_union_excludes : (of includes (excludes.union others) withDefaults).accepts t = true ↔
    (of includes excludes withDefaults).accepts t = true ∧ (of includes others withDefaults).accepts t = true := by
  have hboth : (effectiveExcludes (excludes.union others) withDefaults).accepts t = true ↔
      (effectiveExcludes excludes withDefaults).accepts t = true ∨
        (effectiveExcludes others withDefaults).accepts t = true := by
    rw [accepts_effectiveExcludes_iff, accepts_effectiveExcludes_iff, accepts_effectiveExcludes_iff,
      PatternSet.accepts_union, Bool.or_eq_true, or_or_distrib_left (b := excludes.accepts t = true),
      or_or_distrib_left (b := _ ∨ excludes.accepts t = true)]
  rw [accepts_of_iff, accepts_of_iff, accepts_of_iff, hboth, not_or, ← and_and_left]

/-! ## Lists of grammars in order -/

variable {a b found : List GrammarPath}

/-- A list of grammars in which each stands once, in the order of the names that lead to them. -/
structure InOrder (found : List GrammarPath) : Prop where
  nodup : found.Nodup
  pairwise : found.Pairwise fun g h => precedes g h = true

theorem inOrder_scan {f : Filter} {fs : FileSystem} {current : Place} {root : Path}
    (h : f.scan fs current root = .ok found) : InOrder found :=
  ⟨nodup_scan h, pairwise_scan h⟩

theorem eq_merge_of_mem_iff (hf : InOrder found) (hb : b.Nodup)
    (h : ∀ g, g ∈ found ↔ g ∈ a ∨ g ∈ b) : found = (a ∪ b).mergeSort precedes := by
  refine eq_of_mem_iff hf.nodup ?_ hf.pairwise (List.pairwise_mergeSort precedes_trans precedes_total _) fun g => ?_
  · exact (List.mergeSort_perm _ _).nodup_iff.2 (hb.union a)
  · rw [h, List.mem_mergeSort, List.mem_union_iff]

theorem eq_inter_of_mem_iff (hf : InOrder found) (ha : InOrder a) (h : ∀ g, g ∈ found ↔ g ∈ a ∧ g ∈ b) :
    found = a ∩ b := by
  refine eq_of_mem_iff hf.nodup (ha.nodup.inter b) hf.pairwise (ha.pairwise.filter _) fun g => ?_
  rw [h, List.mem_inter_iff]

/-! ## What is found -/

variable {fs : FileSystem} {current : Place} {root : Path}

theorem insert_eq_union (s : PatternSet) (text : String) : s.insert text = s.union (.ofList [text]) := by
  refine PatternSet.ext_texts fun u => ?_
  rw [PatternSet.mem_texts_insert, PatternSet.mem_texts_union, PatternSet.mem_texts_ofList, List.mem_singleton,
    or_comm]

/-- **Where the walk succeeds, includes together find what one of them finds, excludes together leave what both
leave, and no include is the include of every grammar. So an include more loses nothing where there was one
before, and an exclude more gains nothing.** -/
theorem scan_combined (withDefaults : Bool) (hwalk : ¬ fs.MeetsFailure current root) :
    ∃ found : PatternSet → PatternSet → List GrammarPath,
      (∀ includes excludes, (of includes excludes withDefaults).scan fs current root =
        .ok (found includes excludes)) ∧
      (∀ includes more excludes, includes.isEmpty = false → more.isEmpty = false →
        found (includes.union more) excludes =
          (found includes excludes ∪ found more excludes).mergeSort precedes) ∧
      (∀ includes excludes others,
        found includes (excludes.union others) = found includes excludes ∩ found includes others) ∧
      (∀ includes excludes text, includes.isEmpty = false →
        found includes excludes ⊆ found (includes.insert text) excludes) ∧
      (∀ includes excludes text, found includes (excludes.insert text) ⊆ found includes excludes) ∧
      ∀ excludes, found ∅ excludes = found (.ofList ["**/*.g"]) excludes := by
  have hscan (includes excludes : PatternSet) :
      ∃ found, (of includes excludes withDefaults).scan fs current root = .ok found :=
    exists_scan_of_not_meetsFailure hwalk
  choose found hfound using hscan
  have hmem {includes excludes : PatternSet} {g : GrammarPath} := mem_scan_iff (g := g) (hfound includes excludes)
  have horder (includes excludes : PatternSet) := inOrder_scan (hfound includes excludes)
  have hincludes {includes more : PatternSet} (excludes : PatternSet) (h : includes.isEmpty = false)
      (h' : more.isEmpty = false) (g : GrammarPath) :
      g ∈ found (includes.union more) excludes ↔ g ∈ found includes excludes ∨ g ∈ found more excludes := by
    rw [hmem, hmem, hmem, wants, accepts_union_includes h h', and_or_left]
    rfl
  have hexcludes (includes excludes others : PatternSet) (g : GrammarPath) :
      g ∈ found includes (excludes.union others) ↔ g ∈ found includes excludes ∧ g ∈ found includes others := by
    rw [hmem, hmem, hmem, wants, accepts_union_excludes, and_and_left]
    rfl
  refine ⟨found, hfound, ?_, ?_, ?_, ?_, ?_⟩
  · intro includes more excludes h h'
    exact eq_merge_of_mem_iff (horder _ _) (horder _ _).nodup (hincludes excludes h h')
  · intro includes excludes others
    exact eq_inter_of_mem_iff (horder _ _) (horder _ _) (hexcludes includes excludes others)
  · intro includes excludes text h g hg
    rw [insert_eq_union, hincludes excludes h rfl]
    exact Or.inl hg
  · intro includes excludes text g hg
    rw [insert_eq_union, hexcludes] at hg
    exact hg.1
  · intro excludes
    have hsame : of ∅ excludes withDefaults = of (.ofList ["**/*.g"]) excludes withDefaults := rfl
    have h := hfound ∅ excludes
    rw [hsame, hfound] at h
    exact (Except.ok.inj h).symm

/-- In the tree with the linked directory, the includes `d/**` and `l/**` find the grammar on both ways to it, and
an exclude for one of the ways leaves the other. -/
theorem scan_combined_linked : ∃ found : PatternSet → PatternSet → List GrammarPath,
    (∀ includes excludes, (of includes excludes false).scan linked .root (.ofString "/s") =
      .ok (found includes excludes)) ∧
    found ((PatternSet.ofList ["d/**"]).union (.ofList ["l/**"])) ∅ =
      [⟨[.ofString "d"], .ofString "B.g"⟩, ⟨[.ofString "l"], .ofString "B.g"⟩] ∧
    found (.ofList ["**/B.g"]) ((PatternSet.ofList ["d/**"]).union (.ofList ["x/**"])) =
      [⟨[.ofString "l"], .ofString "B.g"⟩] := by
  obtain ⟨found, hfound, hunion, hinter, -⟩ := scan_combined false reaches_linked.1
  have hway {includes excludes : PatternSet} : found includes excludes =
      ((of includes excludes false).wanted [[.ofString "A.g"], [.ofString "d", .ofString "B.g"],
        [.ofString "l", .ofString "B.g"], [importsName, .ofString "C.g"]]).mergeSort precedes :=
    Except.ok.inj ((hfound _ _).symm.trans (scan_of_walk walk_linked))
  have hd : found (.ofList ["d/**"]) ∅ = [⟨[.ofString "d"], .ofString "B.g"⟩] := by
    rw [hway]
    decide +kernel
  have hl : found (.ofList ["l/**"]) ∅ = [⟨[.ofString "l"], .ofString "B.g"⟩] := by
    rw [hway]
    decide +kernel
  have hexcluded : found (.ofList ["**/B.g"]) (.ofList ["d/**"]) = [⟨[.ofString "l"], .ofString "B.g"⟩] := by
    rw [hway]
    decide +kernel
  have hother : found (.ofList ["**/B.g"]) (.ofList ["x/**"]) =
      [⟨[.ofString "d"], .ofString "B.g"⟩, ⟨[.ofString "l"], .ofString "B.g"⟩] := by
    rw [hway, List.mergeSort_of_pairwise (by decide +kernel)]
    decide +kernel
  refine ⟨found, hfound, ?_, ?_⟩
  · rw [hunion _ _ _ (by decide) (by decide), hd, hl, List.mergeSort_of_pairwise (by decide +kernel)]
    decide +kernel
  · rw [hinter, hexcluded, hother]
    decide +kernel

end GrammarBatch.Filter
