import GrammarBatch.Glob.PatternSet
import GrammarBatch.Proofs.Glob.Wildcard
import Mathlib.Data.List.Forall2

/-!
# What a pattern matches

A pattern takes a path apart: the segments of the path are cut, in order, into one group for each segment
of the pattern. The meaning knows nothing of collapsed `**`, of segments without wildcards or of the order
in which cuts are tried.

* `segmentsOf_append_cons`: the segments of a text around a separator;
* `Pattern.spelled`, `Pattern.Takes`: the segments that a pattern spells, and the groups each can take;
* `acceptsSegments_append`, `acceptsSegments_collapse`, `acceptsSegments_openEnded`: runs of `**` are worth
  one, and a final separator is worth a `**`;
* **`accepts_parse_iff`**: a path is accepted exactly where it can be cut.
-/

namespace GrammarBatch

/-! ## Segments of a text -/

@[simp] theorem segmentsOf_nil : segmentsOf [] = [] := rfl

theorem segmentsOf_append_cons (a b : List Char) {c : Char} (hc : isSeparator c = true) :
    segmentsOf (a ++ c :: b) = segmentsOf a ++ segmentsOf b := by
  rw [segmentsOf, List.splitOnP_append_cons a b hc, List.filter_append]
  rfl

theorem segmentsOf_eq_singleton {a : List Char} (ha : a ≠ []) (h : ∀ c ∈ a, isSeparator c = false) :
    segmentsOf a = [a] := by
  rw [segmentsOf, List.splitOnP_eq_singleton h]
  simp [ha]

theorem splitOnP_congr {p q : Char → Bool} {cs : List Char} (h : ∀ c ∈ cs, p c = q c) :
    cs.splitOnP p = cs.splitOnP q := by
  induction cs with
  | nil => rw [List.splitOnP_nil, List.splitOnP_nil]
  | cons c cs ih =>
    rw [List.splitOnP_cons_eq_if_modifyHead, List.splitOnP_cons_eq_if_modifyHead, h c List.mem_cons_self,
      ih fun x hx => h x (List.mem_cons_of_mem c hx)]

theorem segmentsOf_of_backslash_notMem {cs : List Char} (h : '\\' ∉ cs) :
    segmentsOf cs = (cs.splitOn '/').filter (!·.isEmpty) := by
  have hc : ∀ c ∈ cs, isSeparator c = (c == '/') := by
    intro c hc
    have hne : c ≠ '\\' := by
      rintro rfl
      exact h hc
    rw [isSeparator, beq_false_of_ne hne, Bool.or_false]
  rw [segmentsOf, splitOnP_congr hc, List.splitOn_eq_splitOnP]

/-! ## Every tail -/

theorem anyTail_iff {α : Type} {test : List α → Bool} {l : List α} :
    anyTail test l = true ↔ ∃ rest, rest <:+ l ∧ test rest = true := by
  induction l with
  | nil => simp [anyTail]
  | cons a l ih => simp [anyTail, ih, List.suffix_cons_iff, or_and_right, exists_or]

theorem anyTail_anyTail {α : Type} (test : List α → Bool) (l : List α) :
    anyTail (anyTail test) l = anyTail test l := by
  rw [Bool.eq_iff_iff, anyTail_iff, anyTail_iff]
  constructor
  · rintro ⟨m, hm, h⟩
    obtain ⟨rest, hrest, h⟩ := anyTail_iff.1 h
    exact ⟨rest, hrest.trans hm, h⟩
  · rintro ⟨rest, hrest, h⟩
    exact ⟨l, List.suffix_refl l, anyTail_iff.2 ⟨rest, hrest, h⟩⟩

namespace Pattern

/-! ## Lists of segments -/

section Segments

variable {l l' r r' : List Segment} {path : List (List Char)}

/-- A path is accepted by two lists of segments in a row where it has a part for each. -/
theorem acceptsSegments_append : acceptsSegments (l ++ r) path = true ↔
    ∃ a b, a ++ b = path ∧ acceptsSegments l a = true ∧ acceptsSegments r b = true := by
  induction l generalizing path with
  | nil =>
    constructor
    · exact fun h => ⟨[], path, rfl, rfl, h⟩
    · rintro ⟨a, b, rfl, ha, hb⟩
      rw [List.isEmpty_iff.1 ha]
      exact hb
  | cons s l ih =>
    have single (hs : ∀ l path, acceptsSegments (s :: l) path = true ↔
        ∃ name rest, path = name :: rest ∧ s.accepts name = true ∧ acceptsSegments l rest = true) :
        acceptsSegments (s :: l ++ r) path = true ↔
          ∃ a b, a ++ b = path ∧ acceptsSegments (s :: l) a = true ∧ acceptsSegments r b = true := by
      rw [List.cons_append, hs]
      constructor
      · rintro ⟨name, rest, rfl, hn, h⟩
        obtain ⟨a, b, rfl, ha, hb⟩ := ih.1 h
        exact ⟨name :: a, b, rfl, (hs _ _).2 ⟨name, a, rfl, hn, ha⟩, hb⟩
      · rintro ⟨a, b, rfl, ha, hb⟩
        obtain ⟨name, a, rfl, hn, ha⟩ := (hs _ _).1 ha
        exact ⟨name, a ++ b, rfl, hn, ih.2 ⟨a, b, rfl, ha, hb⟩⟩
    cases s with
    | anyDepth =>
      rw [List.cons_append, acceptsSegments, anyTail_iff]
      constructor
      · rintro ⟨_, ⟨skipped, rfl⟩, h⟩
        obtain ⟨a, b, rfl, hl, hr⟩ := ih.1 h
        exact ⟨skipped ++ a, b, List.append_assoc .., anyTail_iff.2 ⟨a, List.suffix_append .., hl⟩, hr⟩
      · rintro ⟨_, b, rfl, ha, hb⟩
        obtain ⟨a, ⟨skipped, rfl⟩, hl⟩ := anyTail_iff.1 ha
        exact ⟨a ++ b, ⟨skipped, (List.append_assoc ..).symm⟩, ih.2 ⟨a, b, rfl, hl, hb⟩⟩
    | literal text => exact single fun l path => by cases path <;> simp [acceptsSegments]
    | wildcard glob => exact single fun l path => by cases path <;> simp [acceptsSegments]

theorem acceptsSegments_append_congr (hl : ∀ a, acceptsSegments l a = acceptsSegments l' a)
    (hr : ∀ b, acceptsSegments r b = acceptsSegments r' b) (path : List (List Char)) :
    acceptsSegments (l ++ r) path = acceptsSegments (l' ++ r') path := by
  rw [Bool.eq_iff_iff, acceptsSegments_append, acceptsSegments_append]
  simp only [hl, hr]

theorem acceptsSegments_cons_congr (s : Segment) (h : ∀ a, acceptsSegments l a = acceptsSegments l' a)
    (path : List (List Char)) : acceptsSegments (s :: l) path = acceptsSegments (s :: l') path := by
  have hs : ∀ a, acceptsSegments [s] a = acceptsSegments [s] a := fun _ => rfl
  exact acceptsSegments_append_congr hs h path

theorem acceptsSegments_anyDepth_anyDepth (l : List Segment) (path : List (List Char)) :
    acceptsSegments (.anyDepth :: .anyDepth :: l) path = acceptsSegments (.anyDepth :: l) path :=
  anyTail_anyTail (acceptsSegments l) path

theorem acceptsSegments_collapse_cons (s : Segment) (l : List Segment) (path : List (List Char)) :
    acceptsSegments (collapse (s :: l)) path = acceptsSegments (s :: collapse l) path := by
  simp only [collapse]
  split
  · rename_i h
    rw [h, acceptsSegments_anyDepth_anyDepth]
  · rfl

theorem acceptsSegments_collapse (l : List Segment) (path : List (List Char)) :
    acceptsSegments (collapse l) path = acceptsSegments l path := by
  induction l generalizing path with
  | nil => rfl
  | cons s l ih => rw [acceptsSegments_collapse_cons, acceptsSegments_cons_congr s ih]

theorem acceptsSegments_openEnded (l : List Segment) (path : List (List Char)) :
    acceptsSegments (openEnded l) path = acceptsSegments (l ++ [.anyDepth]) path := by
  unfold openEnded
  split
  · rename_i h
    obtain ⟨front, rfl⟩ := List.getLast?_eq_some_iff.1 h
    rw [List.append_assoc]
    exact acceptsSegments_append_congr (fun _ => rfl)
      (fun b => (acceptsSegments_anyDepth_anyDepth [] b).symm) path
  · rfl

end Segments

/-! ## The meaning of a pattern -/

/-- The segments that a text spells as a pattern: one `**` more if it ends in a separator. -/
def spelled (cs : List Char) : List (List Char) :=
  segmentsOf cs ++ if cs.getLast?.any isSeparator then [['*', '*']] else []

/-- The groups of path segments that a segment of a pattern can take. -/
inductive Takes : List Char → List (List Char) → Prop where
  /-- A segment that is exactly `**` takes any number of them. -/
  | anyDepth (group : List (List Char)) : Takes ['*', '*'] group
  /-- Every other segment takes exactly one, which it matches in full. -/
  | one {text name : List Char} : text ≠ ['*', '*'] → Wildcard.Fits text name → Takes text [name]

theorem Segment.accepts_parse {text name : List Char} (h : text ≠ ['*', '*']) :
    (Segment.parse text).accepts name = true ↔ Wildcard.Fits text name := by
  by_cases hw : (text.any fun c => c == '*' || c == '?') = true
  · simp [Segment.parse, h, hw, Segment.accepts, Wildcard.accepts_iff]
  · have plain : ∀ c ∈ text, c ≠ '*' ∧ c ≠ '?' := by simpa using hw
    rw [Wildcard.fits_iff_eq plain]
    simp [Segment.parse, h, hw, Segment.accepts]

theorem acceptsSegments_cons_parse {text : List Char} (h : text ≠ ['*', '*']) (l : List Segment)
    (path : List (List Char)) : acceptsSegments (.parse text :: l) path = true ↔
      ∃ name rest, path = name :: rest ∧ Wildcard.Fits text name ∧ acceptsSegments l rest = true := by
  simp only [← Segment.accepts_parse h]
  have hd : Segment.parse text ≠ .anyDepth := by
    unfold Segment.parse
    rw [if_neg h]
    split <;> nofun
  cases hs : Segment.parse text with
  | anyDepth => exact absurd hs hd
  | literal => cases path <;> simp [acceptsSegments]
  | wildcard => cases path <;> simp [acceptsSegments]

/-- The segments of a pattern accept a path exactly where it can be cut into groups for them. -/
theorem acceptsSegments_map_parse {texts path : List (List Char)} :
    acceptsSegments (texts.map Segment.parse) path = true ↔
      ∃ groups : List (List (List Char)), groups.flatten = path ∧ List.Forall₂ Takes texts groups := by
  induction texts generalizing path with
  | nil =>
    simp only [List.map_nil, acceptsSegments, List.isEmpty_iff, List.forall₂_nil_left_iff]
    constructor
    · rintro rfl
      exact ⟨[], rfl, rfl⟩
    · rintro ⟨_, rfl, rfl⟩
      rfl
  | cons text texts ih =>
    rw [List.map_cons]
    by_cases hd : text = ['*', '*']
    · subst hd
      change anyTail _ path = true ↔ _
      rw [anyTail_iff]
      constructor
      · rintro ⟨_, ⟨group, rfl⟩, h⟩
        obtain ⟨groups, rfl, hg⟩ := ih.1 h
        exact ⟨group :: groups, rfl, .cons (.anyDepth group) hg⟩
      · rintro ⟨_, rfl, h⟩
        cases h with
        | cons _ h => exact ⟨_, List.suffix_append _ _, ih.2 ⟨_, rfl, h⟩⟩
    · rw [acceptsSegments_cons_parse hd]
      constructor
      · rintro ⟨name, rest, rfl, hn, h⟩
        obtain ⟨groups, rfl, hg⟩ := ih.1 h
        exact ⟨[name] :: groups, rfl, .cons (.one hd hn) hg⟩
      · rintro ⟨_, rfl, h⟩
        cases h with
        | cons hg h =>
          cases hg with
          | anyDepth => exact absurd rfl hd
          | one _ hn => exact ⟨_, _, rfl, hn, ih.2 ⟨_, rfl, h⟩⟩

/-- What the segments of a pattern accept is what the segments that its text spells accept. -/
theorem acceptsSegments_segments_parse (s : String) (path : List (List Char)) :
    acceptsSegments (parse s).segments path =
      acceptsSegments ((spelled s.toList).map Segment.parse) path := by
  unfold spelled
  simp only [parse]
  split
  · rw [acceptsSegments_openEnded, List.map_append]
    exact acceptsSegments_append_congr (acceptsSegments_collapse _) (fun _ => rfl) path
  · rw [acceptsSegments_collapse, List.append_nil]

/-- **A pattern accepts a path exactly where both are rooted or neither is, and the segments of the path
can be cut in order into one group for each segment of the pattern.** -/
theorem accepts_parse_iff (p t : String) : (parse p).accepts t = true ↔
    (isRooted p.toList = true ↔ isRooted t.toList = true) ∧
      ∃ groups : List (List (List Char)), groups.flatten = segmentsOf t.toList ∧
        List.Forall₂ Takes (spelled p.toList) groups := by
  rw [accepts_eq, Bool.and_eq_true, beq_iff_eq, acceptsSegments_segments_parse,
    acceptsSegments_map_parse, ← Bool.eq_iff_iff, eq_comm (a := isRooted p.toList)]
  rfl

end Pattern

end GrammarBatch
