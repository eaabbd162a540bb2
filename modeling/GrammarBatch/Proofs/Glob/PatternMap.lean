import GrammarBatch.Proofs.Config.RoundTrip
import Mathlib

/-!
# Sets of patterns kept as maps

A set of patterns can be kept as a map from texts to patterns that are compiled already. Texts come into the map
in more than one way: one by one, where each is compiled; from another map, which has compiled them; and from a
list that is read, by way of an ordered set of texts.

* `PatternMap`: the map, and what is done to it;
* `PatternMap.Holds`: the map and the set have the same patterns in the same order;
* `PatternMap.holds_insert`, `PatternMap.holds_union`, `PatternMap.holds_ofList`, `PatternMap.exists_ofText?`:
  whichever way the texts come, the map goes on holding the set;
* `PatternSet.union_comm`, `PatternSet.union_assoc`, `PatternSet.accepts_union`: the laws of sets.
-/

namespace GrammarBatch

open Json Json.Reader Json.Schema

namespace PatternSet

variable {s t : PatternSet} {path : String}

theorem mem_texts_union {u : String} : u ∈ (s.union t).texts ↔ u ∈ s.texts ∨ u ∈ t.texts := by
  rw [union, mem_texts_insertAll, or_comm]

theorem union_comm (s t : PatternSet) : s.union t = t.union s :=
  ext_texts fun u => by rw [mem_texts_union, mem_texts_union, or_comm]

theorem union_assoc (r s t : PatternSet) : (r.union s).union t = r.union (s.union t) :=
  ext_texts fun u => by simp only [mem_texts_union, or_assoc]

theorem union_self (s : PatternSet) : s.union s = s :=
  ext_texts fun u => by rw [mem_texts_union, or_self]

theorem union_empty (s : PatternSet) : s.union ∅ = s := rfl

theorem accepts_union : (s.union t).accepts path = (s.accepts path || t.accepts path) := by
  rw [Bool.eq_iff_iff, Bool.or_eq_true, accepts_iff, accepts_iff, accepts_iff]
  simp only [mem_texts_union, or_and_right, exists_or]

/-- What is written for a set is read as that set. -/
theorem ofText_eq_ok (s : PatternSet) : ofText s.toText = .ok s := by
  rw [ofText, toText, Value.compact, String.toList_ofList]
  exact run_of_reads s.reads_toValue

theorem ofText_eq (text : String) : ofText text = ((listOf Schema.text).run text.toList).map ofList :=
  run_map _ _ _

end PatternSet

/-- Compiled patterns by their texts. -/
structure PatternMap where
  patterns : Std.TreeMap String Pattern compare := ∅

namespace PatternMap

/-- The map with the pattern of `text` compiled into it, and whether the text was not there. -/
def insert (m : PatternMap) (text : String) : Bool × PatternMap :=
  if m.patterns.contains text then (false, m) else (true, ⟨m.patterns.insert text (.parse text)⟩)

/-- A copy of the map with the pattern of `text` in it. -/
def extend (m : PatternMap) (text : String) : PatternMap := (m.insert text).2

/-- A copy of the first map, with the patterns of the second whose texts it does not have. -/
def union (m n : PatternMap) : PatternMap :=
  ⟨n.patterns.foldl (fun merged text pattern => merged.insertIfNew text pattern) m.patterns⟩

/-- The map that the texts of a list go into, one after another. -/
def ofList (texts : List String) : PatternMap := texts.foldl extend {}

/-- The map of the texts of an ordered set. -/
def ofSet (texts : Std.TreeSet String compare) : PatternMap := ofList texts.toList

/-- The texts of the map. -/
def texts (m : PatternMap) : List String := m.patterns.keys

/-- The map that is read from a list of texts. -/
def ofText? (text : String) : Option PatternMap :=
  ((listOf Schema.text).run text.toList).toOption.map fun texts => ofSet (.ofList texts compare)

/-- The texts of the map as a list. -/
def toText (m : PatternMap) : String :=
  (Value.list ((Std.TreeSet.ofList m.texts compare).toList.map .text)).compact

/-- Whether some pattern of the map matches the path. -/
def accepts (m : PatternMap) (path : String) : Bool := m.patterns.toList.any fun entry => entry.2.accepts path

/-- The entries of the map are the patterns of the set, each under its text. -/
def Holds (m : PatternMap) (s : PatternSet) : Prop := m.patterns.toList = s.patterns.map fun p => (p.source, p)

variable {m n : PatternMap} {s t : PatternSet} {text : String}

theorem mem_patterns_map_iff {u : String} {p : Pattern} :
    (u, p) ∈ s.patterns.map (fun p => (p.source, p)) ↔ u ∈ s.texts ∧ p = .parse u := by
  rw [PatternSet.texts, List.mem_map, List.mem_map]
  constructor
  · rintro ⟨q, hq, h⟩
    rw [Prod.mk.injEq] at h
    obtain ⟨rfl, rfl⟩ := h
    exact ⟨⟨q, hq, rfl⟩, (s.parsed q hq).symm⟩
  · rintro ⟨⟨q, hq, rfl⟩, rfl⟩
    exact ⟨q, hq, by rw [s.parsed q hq]⟩

theorem lt_iff {u v : String} : compare u v = .lt ↔ u < v := compare_lt_iff_lt

/-- Entries in the order of their texts are known by what is among them. -/
theorem holds_iff : m.Holds s ↔ ∀ u p, m.patterns[u]? = some p ↔ u ∈ s.texts ∧ p = .parse u := by
  simp only [← Std.TreeMap.mem_toList_iff_getElem?_eq_some, ← mem_patterns_map_iff (s := s)]
  constructor
  · intro h u p
    rw [h]
  · intro h
    have hleft : m.patterns.toList.Pairwise (fun a b => a.1 < b.1) :=
      m.patterns.ordered_keys_toList.imp lt_iff.1
    have hright : (s.patterns.map fun p => (p.source, p)).Pairwise (fun a b => a.1 < b.1) :=
      List.pairwise_map.2 s.increasing
    have : Std.Irrefl fun a b : String × Pattern => a.1 < b.1 := ⟨fun a => lt_irrefl a.1⟩
    have : Std.Antisymm fun a b : String × Pattern => a.1 < b.1 := ⟨fun a b h h' => (lt_asymm h h').elim⟩
    exact hleft.eq_of_mem_iff hright fun ⟨u, p⟩ => h u p

theorem Holds.mem_iff (h : m.Holds s) : text ∈ m.patterns ↔ text ∈ s.texts := by
  rw [← Std.TreeMap.isSome_getElem?_iff_mem, Option.isSome_iff_exists]
  simp only [holds_iff.1 h, exists_and_left, exists_eq, and_true]

theorem Holds.texts_eq (h : m.Holds s) : m.texts = s.texts := by
  rw [texts, ← Std.TreeMap.map_fst_toList_eq_keys, h, List.map_map]
  rfl

theorem Holds.accepts_eq (h : m.Holds s) (path : String) : m.accepts path = s.accepts path := by
  rw [accepts, h, List.any_map, PatternSet.accepts_eq_any]
  rfl

theorem holds_empty : Holds {} ∅ := rfl

theorem holds_insertIfNew (h : m.Holds s) (text : String) :
    Holds ⟨m.patterns.insertIfNew text (.parse text)⟩ (s.insert text) := by
  rw [holds_iff]
  intro u p
  simp only [Std.TreeMap.getElem?_insertIfNew, PatternSet.mem_texts_insert, compare_eq_iff_eq, h.mem_iff]
  split_ifs with hnew
  · obtain ⟨rfl, -⟩ := hnew
    simp [eq_comm]
  · have hold : u = text → u ∈ s.texts := by
      rintro rfl
      exact not_not.1 fun hu => hnew ⟨rfl, hu⟩
    rw [holds_iff.1 h, or_iff_right_of_imp hold]

theorem holds_insert (h : m.Holds s) (text : String) :
    (m.insert text).1 = !s.contains text ∧ (m.insert text).2.Holds (s.insert text) := by
  have hmem : m.patterns.contains text = s.contains text := by
    rw [Bool.eq_iff_iff, Std.TreeMap.contains_iff_mem, h.mem_iff, PatternSet.contains, List.contains_iff_mem]
  have hnew := holds_iff.1 (holds_insertIfNew h text)
  simp only [Std.TreeMap.getElem?_insertIfNew, ← Std.TreeMap.contains_iff_mem, hmem] at hnew
  rw [insert, hmem]
  cases hc : s.contains text with
  | true =>
    refine ⟨rfl, holds_iff.2 fun u p => ?_⟩
    simpa [hc] using hnew u p
  | false =>
    refine ⟨rfl, holds_iff.2 fun u p => ?_⟩
    rw [if_neg nofun, Std.TreeMap.getElem?_insert]
    simpa [hc] using hnew u p

theorem holds_foldl (h : m.Holds s) (texts : List String) :
    (texts.foldl extend m).Holds (s.insertAll texts) := by
  induction texts generalizing m s with
  | nil => exact h
  | cons u texts ih => exact ih (holds_insert h u).2

theorem holds_ofList (texts : List String) : (ofList texts).Holds (.ofList texts) := holds_foldl holds_empty texts

theorem mem_toList_ofList {texts : List String} {u : String} :
    u ∈ (Std.TreeSet.ofList texts compare).toList ↔ u ∈ texts := by
  rw [Std.TreeSet.mem_toList, Std.TreeSet.mem_ofList, List.contains_iff_mem]

/-- What goes through an ordered set comes out in another order, and once. -/
theorem holds_ofSet (texts : List String) : (ofSet (.ofList texts compare)).Holds (.ofList texts) := by
  have hset : PatternSet.ofList (Std.TreeSet.ofList texts compare).toList = PatternSet.ofList texts :=
    PatternSet.ext_texts fun u => by
      rw [PatternSet.mem_texts_ofList, PatternSet.mem_texts_ofList, mem_toList_ofList]
  exact hset ▸ holds_ofList _

/-- Patterns that another map has compiled are those that this one would compile. -/
theorem holds_foldl_insertIfNew (h : m.Holds s) {l : List Pattern}
    (hl : ∀ p ∈ l, Pattern.parse p.source = p) :
    Holds ⟨(l.map fun p => (p.source, p)).foldl (fun merged entry => merged.insertIfNew entry.1 entry.2)
      m.patterns⟩ (s.insertAll (l.map (·.source))) := by
  induction l generalizing m s with
  | nil => exact h
  | cons p l ih =>
    have hp := holds_insertIfNew h p.source
    rw [hl p List.mem_cons_self] at hp
    exact ih hp fun q hq => hl q (List.mem_cons_of_mem p hq)

theorem holds_union (hm : m.Holds s) (hn : n.Holds t) : (m.union n).Holds (s.union t) := by
  rw [union, Std.TreeMap.foldl_eq_foldl_toList, hn]
  exact holds_foldl_insertIfNew hm t.parsed

theorem holds_ofText? (text : String) : Option.Rel Holds (ofText? text) (PatternSet.ofText text).toOption := by
  rw [PatternSet.ofText_eq, ofText?]
  cases (listOf Schema.text).run text.toList with
  | error e => exact .none
  | ok texts => exact .some (holds_ofSet texts)

theorem toText_eq (h : m.Holds s) : m.toText = s.toText := by
  have hset : (Std.TreeSet.ofList s.texts compare).toList = s.texts := by
    have hleft : (Std.TreeSet.ofList s.texts compare).toList.Pairwise (· < ·) :=
      Std.TreeSet.ordered_toList.imp lt_iff.1
    exact hleft.eq_of_mem_iff (List.pairwise_map.2 s.increasing) fun u => mem_toList_ofList
  rw [toText, h.texts_eq, hset]
  rfl

end PatternMap

end GrammarBatch
