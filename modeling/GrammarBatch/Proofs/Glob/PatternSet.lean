import GrammarBatch.Proofs.Glob.Pattern
import Mathlib.Data.List.Sort

/-!
# What a set of patterns accepts

* `PatternSet.ext_texts`: sets with the same texts are the same;
* `PatternSet.insertAll_append`, `PatternSet.insertAll_insertAll`: texts in two goes, and over again;
* `PatternSet.accepts_iff`: a set accepts what the pattern of one of its texts accepts;
* `PatternSet.accepts_insert`, `PatternSet.accepts_insertAll`: more patterns accept more;
* `Pattern.acceptsSegments_below`, `Pattern.acceptsSegments_anywhere`: the two shapes of patterns that keep
  away from a directory.
-/

namespace GrammarBatch

namespace PatternSet

variable {s : PatternSet} {t : String}

theorem ext_texts {r s : PatternSet} (h : ∀ u, u ∈ r.texts ↔ u ∈ s.texts) : r = s := by
  have hsorted (s : PatternSet) : s.texts.Pairwise (· < ·) := List.pairwise_map.2 s.increasing
  exact eq_of_texts_eq ((hsorted r).eq_of_mem_iff (hsorted s) h)

theorem mem_patterns_iff {p : Pattern} : p ∈ s.patterns ↔ ∃ u ∈ s.texts, Pattern.parse u = p := by
  constructor
  · exact fun hp => ⟨p.source, List.mem_map_of_mem hp, s.parsed p hp⟩
  · rintro ⟨u, hu, rfl⟩
    obtain ⟨p, hp, rfl⟩ := List.mem_map.1 hu
    rwa [s.parsed p hp]

/-- A set accepts what the pattern of one of its texts accepts. -/
theorem accepts_iff : s.accepts t = true ↔ ∃ u ∈ s.texts, (Pattern.parse u).accepts t = true := by
  rw [accepts_eq_any, List.any_eq_true]
  constructor
  · rintro ⟨p, hp, h⟩
    obtain ⟨u, hu, rfl⟩ := mem_patterns_iff.1 hp
    exact ⟨u, hu, h⟩
  · rintro ⟨u, hu, h⟩
    exact ⟨_, mem_patterns_iff.2 ⟨u, hu, rfl⟩, h⟩

theorem accepts_empty (t : String) : (∅ : PatternSet).accepts t = false := rfl

theorem accepts_insert {u : String} :
    (s.insert u).accepts t = true ↔ (Pattern.parse u).accepts t = true ∨ s.accepts t = true := by
  rw [accepts_iff, accepts_iff]
  simp only [mem_texts_insert, or_and_right, exists_or, exists_eq_left]

theorem mem_texts_insertAll {texts : List String} :
    t ∈ (s.insertAll texts).texts ↔ t ∈ texts ∨ t ∈ s.texts := by
  unfold insertAll
  induction texts generalizing s with
  | nil => simp
  | cons u texts ih => rw [List.foldl_cons, ih, mem_texts_insert, List.mem_cons, or_left_comm, or_assoc]

theorem insertAll_append (s : PatternSet) (texts texts' : List String) :
    s.insertAll (texts ++ texts') = (s.insertAll texts).insertAll texts' := List.foldl_append

theorem insertAll_insertAll (s : PatternSet) (texts : List String) :
    (s.insertAll texts).insertAll texts = s.insertAll texts :=
  ext_texts fun _ => mem_texts_insertAll.trans (or_iff_right_of_imp fun ht => mem_texts_insertAll.2 (Or.inl ht))

theorem mem_texts_ofList {texts : List String} : t ∈ (ofList texts).texts ↔ t ∈ texts := by
  rw [ofList, mem_texts_insertAll, texts_empty]
  simp

theorem accepts_insertAll {texts : List String} : (s.insertAll texts).accepts t = true ↔
    (∃ u ∈ texts, (Pattern.parse u).accepts t = true) ∨ s.accepts t = true := by
  rw [accepts_iff, accepts_iff]
  simp only [mem_texts_insertAll, or_and_right, exists_or]

end PatternSet

namespace Pattern

variable {name : List Char} {path : List (List Char)}

theorem acceptsSegments_anyDepth (path : List (List Char)) : acceptsSegments [.anyDepth] path = true :=
  anyTail_iff.2 ⟨[], List.nil_suffix, rfl⟩

/-- `name/**` takes the paths that begin with the name. -/
theorem acceptsSegments_below :
    acceptsSegments [.literal name, .anyDepth] path = true ↔ path.head? = some name := by
  cases path with
  | nil => simp [acceptsSegments]
  | cons first path =>
    have hcons : acceptsSegments [.literal name, .anyDepth] (first :: path) =
        (name == first && acceptsSegments [.anyDepth] path) := rfl
    rw [hcons, acceptsSegments_anyDepth, Bool.and_true, beq_iff_eq, List.head?_cons, Option.some.injEq,
      eq_comm]

/-- `**/name/**` takes the paths that have the name somewhere. -/
theorem acceptsSegments_anywhere :
    acceptsSegments [.anyDepth, .literal name, .anyDepth] path = true ↔ name ∈ path := by
  rw [acceptsSegments, anyTail_iff]
  simp only [acceptsSegments_below]
  constructor
  · rintro ⟨rest, hrest, h⟩
    exact hrest.subset (List.mem_of_head? h)
  · intro h
    obtain ⟨before, rest, rfl⟩ := List.append_of_mem h
    exact ⟨name :: rest, List.suffix_append before _, rfl⟩

end Pattern

end GrammarBatch
