import GrammarBatch.Glob.Pattern

/-!
# Sets of patterns

A `PatternSet` holds each pattern text once, in increasing order of code points, which is also the byte
order of the texts. A path matches the set if some pattern of it matches.

* `PatternSet.insert`, `PatternSet.union`, `PatternSet.ofList`: building sets;
* `PatternSet.contains`, `PatternSet.accepts`, `PatternSet.texts`: looking at them.

Order, uniqueness and the pairing of each text with its pattern are part of the type.
-/

namespace GrammarBatch

/-- A set of patterns, ordered by their texts. -/
structure PatternSet where
  /-- The patterns in order. -/
  patterns : List Pattern
  /-- The texts increase, so none occurs twice. -/
  increasing : patterns.Pairwise (fun p q => p.source < q.source)
  parsed : ∀ p ∈ patterns, Pattern.parse p.source = p
deriving DecidableEq

namespace PatternSet

/-- The patterns with `p` put in its place, unless its text is there already. -/
def place (p : Pattern) : List Pattern → List Pattern
  | [] => [p]
  | q :: l =>
    if p.source < q.source then p :: q :: l
    else if q.source < p.source then q :: place p l
    else q :: l

theorem mem_of_mem_place {p q : Pattern} {l : List Pattern} (h : q ∈ place p l) : q = p ∨ q ∈ l := by
  induction l with
  | nil => exact Or.inl (List.mem_singleton.1 h)
  | cons r l ih =>
    simp only [place] at h
    split at h
    · exact (List.mem_cons.1 h).imp_right id
    · split at h
      · rcases List.mem_cons.1 h with h | h
        · exact Or.inr (h ▸ List.mem_cons_self)
        · exact (ih h).imp_right (List.mem_cons_of_mem _)
      · exact Or.inr h

theorem mem_place {p q : Pattern} {l : List Pattern} :
    q ∈ l → q ∈ place p l := by
  induction l with
  | nil => simp
  | cons r l ih =>
    intro h
    simp only [place]
    split
    · exact List.mem_cons_of_mem _ h
    · split
      · rcases List.mem_cons.1 h with rfl | h
        · exact List.mem_cons_self
        · exact List.mem_cons_of_mem _ (ih h)
      · exact h

theorem source_mem_place (p : Pattern) (l : List Pattern) :
    p.source ∈ (place p l).map (·.source) := by
  induction l with
  | nil => simp [place]
  | cons r l ih =>
    simp only [place]
    split
    · simp
    · rename_i hp
      split
      · exact List.mem_cons_of_mem _ ih
      · rename_i hr
        simp [String.le_antisymm (String.not_lt.1 hr) (String.not_lt.1 hp)]

theorem pairwise_place {p : Pattern} {l : List Pattern}
    (h : l.Pairwise (fun p q => p.source < q.source)) :
    (place p l).Pairwise (fun p q => p.source < q.source) := by
  induction l with
  | nil => simp [place]
  | cons r l ih =>
    have hr := List.pairwise_cons.1 h
    simp only [place]
    split
    · rename_i hp
      refine List.pairwise_cons.2 ⟨fun q hq => ?_, h⟩
      rcases List.mem_cons.1 hq with rfl | hq
      · exact hp
      · exact String.lt_trans hp (hr.1 q hq)
    · split
      · rename_i hp
        refine List.pairwise_cons.2 ⟨fun q hq => ?_, ih hr.2⟩
        rcases mem_of_mem_place hq with rfl | hq
        · exact hp
        · exact hr.1 q hq
      · exact h

/-- The set without patterns. -/
def empty : PatternSet where
  patterns := []
  increasing := .nil
  parsed := by simp

instance : EmptyCollection PatternSet := ⟨empty⟩

instance : Inhabited PatternSet := ⟨empty⟩

/-- The set with the pattern of `text` in it. -/
def insert (s : PatternSet) (text : String) : PatternSet where
  patterns := place (.parse text) s.patterns
  increasing := pairwise_place s.increasing
  parsed p hp := by
    rcases mem_of_mem_place hp with rfl | hp
    · simp
    · exact s.parsed p hp

/-- The texts of the set, in order. -/
def texts (s : PatternSet) : List String := s.patterns.map (·.source)

@[simp] theorem texts_empty : (∅ : PatternSet).texts = [] := rfl

@[simp] theorem mem_texts_insert {s : PatternSet} {t u : String} :
    t ∈ (s.insert u).texts ↔ t = u ∨ t ∈ s.texts := by
  simp only [texts, insert]
  constructor
  · intro h
    obtain ⟨p, hp, rfl⟩ := List.mem_map.1 h
    rcases mem_of_mem_place hp with rfl | hp
    · exact Or.inl (Pattern.source_parse u)
    · exact Or.inr (List.mem_map.2 ⟨p, hp, rfl⟩)
  · rintro (rfl | h)
    · exact source_mem_place (.parse t) _
    · obtain ⟨p, hp, rfl⟩ := List.mem_map.1 h
      exact List.mem_map.2 ⟨p, mem_place hp, rfl⟩

/-- A set is known by its texts. -/
theorem eq_of_texts_eq {s t : PatternSet} (h : s.texts = t.texts) : s = t := by
  have parsed (s : PatternSet) : s.patterns = s.texts.map Pattern.parse := by
    rw [texts, List.map_map]
    exact (List.map_id' s.patterns).symm.trans
      (List.map_congr_left fun p hp => (s.parsed p hp).symm)
  have hp : s.patterns = t.patterns := by rw [parsed s, parsed t, h]
  cases s
  cases t
  cases hp
  rfl

/-- The set with every text of the list in it. -/
def insertAll (s : PatternSet) (texts : List String) : PatternSet := texts.foldl insert s

/-- The set of the texts of a list. -/
def ofList (texts : List String) : PatternSet := insertAll ∅ texts

/-- The patterns of both sets. -/
def union (s t : PatternSet) : PatternSet := s.insertAll t.texts

/-- Whether the text is in the set. -/
def contains (s : PatternSet) (text : String) : Bool := s.texts.contains text

/-- Whether the set has no pattern. -/
def isEmpty (s : PatternSet) : Bool := s.patterns.isEmpty

/-- The number of patterns. -/
def size (s : PatternSet) : Nat := s.patterns.length

/-- Whether some pattern of the set matches the path, which is taken apart once for all of them. -/
def accepts (s : PatternSet) (path : String) : Bool :=
  let cs := path.toList
  let rooted := isRooted cs
  let parts := segmentsOf cs
  s.patterns.any (·.acceptsParts rooted parts)

theorem accepts_eq_any (s : PatternSet) (path : String) :
    s.accepts path = s.patterns.any (·.accepts path) := rfl

end PatternSet

end GrammarBatch
