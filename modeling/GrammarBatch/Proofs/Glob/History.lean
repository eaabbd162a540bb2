import GrammarBatch.Proofs.Glob.PatternMap
import GrammarBatch.Proofs.Text.ByteOrder
import Mathlib

/-!
# Sets of patterns through any history

Sets come to be in several ways, and change, one step after another. Here the sets have numbers, and each step
gives one of them a new value.

* `PatternMap.Operations`: a kind of sets, with what can be done to them; `maps` are the compiled ones, `sets`
  those in order, and `inputs` only keep the texts that went in;
* `PatternMap.Operations.Simulates`: what one kind does, the other does too;
  `Simulates.value` for one step, and `Simulates.run` for a history;
* `PatternMap.Lawful`, **`PatternMap.lawful`**: what is true of the maps after every history.
-/

namespace GrammarBatch.PatternMap

open Json Json.Schema

/-- One step: the set that gets a new value comes first. -/
inductive Action where
  /-- The target becomes the set without patterns. -/
  | new (target : Nat)
  /-- The target becomes the set of the texts. -/
  | collect (target : Nat) (texts : List String)
  /-- The text goes into the target. -/
  | insert (target : Nat) (text : String)
  /-- The target becomes the source with the text in it. -/
  | extend (target source : Nat) (text : String)
  /-- The target becomes the union of the other two. -/
  | union (target left right : Nat)
  /-- The target becomes the set that is read, if one is. -/
  | read (target : Nat) (text : String)

/-- The set that gets a new value. -/
def Action.target : Action → Nat
  | new x | collect x _ | insert x _ | extend x _ _ | union x _ _ | read x _ => x

/-- A kind of sets, with what can be done to them. -/
structure Operations (α : Type) where
  new : α
  collect : List String → α
  insert : α → String → Bool × α
  extend : α → String → α
  union : α → α → α
  read : String → Option α

namespace Operations

variable {α β : Type}

/-- What a step answers, and the value that its target has then. -/
def value (o : Operations α) (held : Nat → α) : Action → Bool × α
  | .new _ => (true, o.new)
  | .collect _ texts => (true, o.collect texts)
  | .insert x text => o.insert (held x) text
  | .extend _ y text => (true, o.extend (held y) text)
  | .union _ y z => (true, o.union (held y) (held z))
  | .read x text =>
    match o.read text with
    | some a => (true, a)
    | none => (false, held x)

/-- The sets after a step. -/
def step (o : Operations α) (held : Nat → α) (a : Action) : Nat → α :=
  Function.update held a.target (o.value held a).2

/-- The sets after a history, which begins with sets without patterns. -/
def run (o : Operations α) (history : List Action) : Nat → α := history.foldl o.step fun _ => o.new

/-- What the first kind of sets does, the second does too, and what they hold stays related. -/
structure Simulates (o : Operations α) (o' : Operations β) (R : α → β → Prop) : Prop where
  new : R o.new o'.new
  collect (texts : List String) : R (o.collect texts) (o'.collect texts)
  insert {a : α} {b : β} (h : R a b) (text : String) :
    (o.insert a text).1 = (o'.insert b text).1 ∧ R (o.insert a text).2 (o'.insert b text).2
  extend {a : α} {b : β} (h : R a b) (text : String) : R (o.extend a text) (o'.extend b text)
  union {a c : α} {b d : β} (h : R a b) (h' : R c d) : R (o.union a c) (o'.union b d)
  read (text : String) : Option.Rel R (o.read text) (o'.read text)

namespace Simulates

variable {o : Operations α} {o' : Operations β} {R : α → β → Prop} {held : Nat → α} {held' : Nat → β}

theorem value (h : Simulates o o' R) (hheld : ∀ x, R (held x) (held' x)) (a : Action) :
    (o.value held a).1 = (o'.value held' a).1 ∧ R (o.value held a).2 (o'.value held' a).2 := by
  cases a with
  | new x => exact ⟨rfl, h.new⟩
  | collect x texts => exact ⟨rfl, h.collect texts⟩
  | insert x text => exact h.insert (hheld x) text
  | extend x y text => exact ⟨rfl, h.extend (hheld y) text⟩
  | union x y z => exact ⟨rfl, h.union (hheld y) (hheld z)⟩
  | read x text =>
    have hread := h.read text
    simp only [Operations.value]
    generalize o.read text = a, o'.read text = b at hread ⊢
    cases hread with
    | none => exact ⟨rfl, hheld x⟩
    | some hab => exact ⟨rfl, hab⟩

theorem step (h : Simulates o o' R) (hheld : ∀ x, R (held x) (held' x)) (a : Action) (x : Nat) :
    R (o.step held a x) (o'.step held' a x) := by
  unfold Operations.step
  by_cases hx : x = a.target
  · subst hx
    simpa using (h.value hheld a).2
  · simpa [hx] using hheld x

/-- What is related once stays so through every history. -/
theorem run (h : Simulates o o' R) (history : List Action) (x : Nat) : R (o.run history x) (o'.run history x) := by
  have hfrom (held : Nat → α) (held' : Nat → β) (hheld : ∀ x, R (held x) (held' x)) :
      R (history.foldl o.step held x) (history.foldl o'.step held' x) := by
    induction history generalizing held held' with
    | nil => exact hheld x
    | cons a history ih => exact ih _ _ (h.step hheld a)
  exact hfrom _ _ fun _ => h.new

end Simulates

end Operations

/-- Maps to compiled patterns. -/
def maps : Operations PatternMap where
  new := {}
  collect := ofList
  insert := insert
  extend := extend
  union := union
  read := ofText?

/-- Patterns in order. -/
def sets : Operations PatternSet where
  new := ∅
  collect := .ofList
  insert s text := (!s.contains text, s.insert text)
  extend s text := s.insert text
  union := .union
  read text := (PatternSet.ofText text).toOption

/-- The texts that went in, in no order and as often as they came. -/
def inputs : Operations (List String) where
  new := []
  collect texts := texts
  insert l text := (!l.contains text, text :: l)
  extend l text := text :: l
  union := (· ++ ·)
  read text := ((listOf Schema.text).run text.toList).toOption

theorem maps_simulates_sets : maps.Simulates sets Holds where
  new := holds_empty
  collect := holds_ofList
  insert := holds_insert
  extend h text := (holds_insert h text).2
  union := holds_union
  read := holds_ofText?

theorem sets_simulates_inputs : sets.Simulates inputs fun s l => ∀ u, u ∈ s.texts ↔ u ∈ l where
  new u := by simp [sets, inputs]
  collect texts u := PatternSet.mem_texts_ofList
  insert {s l} h text := by
    refine ⟨?_, fun u => ?_⟩
    · simp [sets, inputs, PatternSet.contains, h]
    · simp [sets, inputs, h]
  extend h text u := by simp [sets, inputs, h]
  union h h' u := by simp [sets, inputs, PatternSet.mem_texts_union, h, h']
  read text := by
    simp only [sets, inputs, PatternSet.ofText_eq]
    cases (listOf Schema.text).run text.toList with
    | error e => exact .none
    | ok texts => exact .some fun u => PatternSet.mem_texts_ofList

/-! ## What is true after every history -/

/-- Two maps are the same if they have the same entries in the same order. -/
def Same (m n : PatternMap) : Prop := m.patterns.toList = n.patterns.toList

variable {m n : PatternMap} {s t : PatternSet}

theorem Holds.same_iff (hm : m.Holds s) (hn : n.Holds t) : m.Same n ↔ ∀ u, u ∈ m.texts ↔ u ∈ n.texts := by
  rw [hm.texts_eq, hn.texts_eq, Same, hm, hn]
  constructor
  · intro h u
    have htexts := congrArg (List.map Prod.fst) h
    rw [List.map_map, List.map_map] at htexts
    exact iff_of_eq (congrArg (u ∈ ·) htexts)
  · intro h
    rw [PatternSet.ext_texts h]

theorem Holds.same (hm : m.Holds s) (hn : n.Holds s) : m.Same n := hm.trans hn.symm

/-- What is true of the maps after a history. -/
structure Lawful (history : List Action) : Prop where
  /-- The maps hold the sets that the same history gives. -/
  holds (x : Nat) : (maps.run history x).Holds (sets.run history x)
  /-- Each text that went in, and no other, is there with its pattern. -/
  paired (x : Nat) (t : String) (p : Pattern) :
    (t, p) ∈ (maps.run history x).patterns.toList ↔ t ∈ inputs.run history x ∧ p = .parse t
  /-- The bytes of the texts increase, so no text is there twice. -/
  increasing (x : Nat) : ((maps.run history x).texts.map Utf8.encode).Pairwise (· < ·)
  insert_iff (x : Nat) (t : String) :
    ((maps.run history x).insert t).1 = true ↔ t ∉ (maps.run history x).texts
  /-- A step leaves every set but its target as it is. -/
  others (a : Action) (y : Nat) (h : y ≠ a.target) : maps.run (history ++ [a]) y = maps.run history y
  /-- Two sets are the same if they have the same texts, whatever their histories are. -/
  same_iff (other : List Action) (x y : Nat) : (maps.run history x).Same (maps.run other y) ↔
    ∀ t, t ∈ (maps.run history x).texts ↔ t ∈ (maps.run other y).texts
  union_comm (x y : Nat) : ((maps.run history x).union (maps.run history y)).Same
    ((maps.run history y).union (maps.run history x))
  union_assoc (x y z : Nat) :
    (((maps.run history x).union (maps.run history y)).union (maps.run history z)).Same
      ((maps.run history x).union ((maps.run history y).union (maps.run history z)))
  union_self (x : Nat) : ((maps.run history x).union (maps.run history x)).Same (maps.run history x)
  union_empty (x : Nat) : ((maps.run history x).union {}).Same (maps.run history x)
  empty_union (x : Nat) : (union {} (maps.run history x)).Same (maps.run history x)
  /-- A path is accepted if the pattern of a text that went in accepts it. -/
  accepts_iff (x : Nat) (path : String) : (maps.run history x).accepts path = true ↔
    ∃ t ∈ inputs.run history x, (Pattern.parse t).accepts path = true
  accepts_union (x y : Nat) (path : String) :
    ((maps.run history x).union (maps.run history y)).accepts path =
      ((maps.run history x).accepts path || (maps.run history y).accepts path)
  /-- What is written for a set is read as the same set. -/
  read_toText (x : Nat) : ∃ m, ofText? (maps.run history x).toText = some m ∧ m.Same (maps.run history x)

theorem exists_ofText?_toText (h : m.Holds s) : ∃ n, ofText? m.toText = some n ∧ n.Same m := by
  have hread := holds_ofText? s.toText
  rw [PatternSet.ofText_eq_ok] at hread
  rw [toText_eq h]
  generalize ofText? s.toText = r at hread ⊢
  cases hread with
  | some hn => exact ⟨_, rfl, hn.same h⟩

theorem increasing_texts (h : m.Holds s) : (m.texts.map Utf8.encode).Pairwise (· < ·) := by
  rw [h.texts_eq, PatternSet.texts, List.map_map]
  exact List.pairwise_map.2 (s.increasing.imp Utf8.encode_lt_encode_iff.2)

/-- **Whatever the history of the sets is, each text is there once, with its own pattern and in the order of the
bytes; the sets are known by their texts, and obey the laws of sets.** -/
theorem lawful (history : List Action) : Lawful history := by
  have holds (history : List Action) (x : Nat) : (maps.run history x).Holds (sets.run history x) :=
    maps_simulates_sets.run history x
  have hinputs (x : Nat) (t : String) : t ∈ (sets.run history x).texts ↔ t ∈ inputs.run history x :=
    sets_simulates_inputs.run history x t
  exact {
    holds := holds history
    paired := fun x t p => by
      rw [holds history x, mem_patterns_map_iff, hinputs]
    increasing := fun x => increasing_texts (holds history x)
    insert_iff := fun x t => by
      rw [(holds_insert (holds history x) t).1, (holds history x).texts_eq]
      simp [PatternSet.contains]
    others := fun a y h => by
      unfold Operations.run
      rw [List.foldl_append, List.foldl_cons, List.foldl_nil, Operations.step, Function.update_of_ne h]
    same_iff := fun other x y => (holds history x).same_iff (holds other y)
    union_comm := fun x y => by
      have h := holds_union (holds history x) (holds history y)
      rw [PatternSet.union_comm] at h
      exact h.same (holds_union (holds history y) (holds history x))
    union_assoc := fun x y z => by
      have h := holds_union (holds_union (holds history x) (holds history y)) (holds history z)
      rw [PatternSet.union_assoc] at h
      exact h.same (holds_union (holds history x) (holds_union (holds history y) (holds history z)))
    union_self := fun x => by
      have h := holds_union (holds history x) (holds history x)
      rw [PatternSet.union_self] at h
      exact h.same (holds history x)
    union_empty := fun x => by
      have h := holds_union (holds history x) holds_empty
      rw [PatternSet.union_empty] at h
      exact h.same (holds history x)
    empty_union := fun x => by
      have h := holds_union holds_empty (holds history x)
      rw [PatternSet.union_comm] at h
      exact h.same (holds history x)
    accepts_iff := fun x path => by
      rw [(holds history x).accepts_eq, PatternSet.accepts_iff]
      simp only [hinputs]
    accepts_union := fun x y path => by
      rw [(holds_union (holds history x) (holds history y)).accepts_eq, (holds history x).accepts_eq,
        (holds history y).accepts_eq, PatternSet.accepts_union]
    read_toText := fun x => exists_ofText?_toText (holds history x) }

example :
    let history := [.collect 0 ["b", "a", "b"], .insert 1 "a", .extend 2 1 "b", .read 3 "[\"b\", \"a\"]",
      .union 4 1 0]
    [0, 1, 2, 3, 4].map (fun x => (maps.run history x).texts) =
      [["a", "b"], ["a"], ["a", "b"], ["a", "b"], ["a", "b"]] := by decide +kernel

end GrammarBatch.PatternMap
