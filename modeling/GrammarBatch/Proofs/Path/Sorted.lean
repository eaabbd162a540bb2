import GrammarBatch.Proofs.Path.Mirror
import Mathlib.Data.List.Destutter

/-!
# Grammar paths in order

Grammar paths are ordered by their directories, part by part, and in one directory by their names. A list of them
in this order goes through the tree of directories: first the grammars of a directory, then those below it.

* `prefix_of_between`, `compare_of_below`: between two lists that begin with `d` there are only such, and `d` itself
  is before all others of them;
* `isInfix_filter_of_pairwise`: what holds of all that lies between two of it stands together in a list in order;
* `GrammarPath.compare_eq`: the order of grammar paths is that of their directories and then of their names;
* `GrammarPath.sorted`, `GrammarPath.eq_sorted_iff`: the list in order, whatever the order was before;
* `GrammarPath.FollowsTree`, `GrammarPath.followsTree_of_pairwise`: a list in order follows the tree;
* **`GrammarPath.sorted_followsTree`**: what sorting makes of a list of grammar paths.
-/

namespace GrammarBatch

/-! ## The order of lists -/

section Lists

variable {α : Type} [Ord α] {d a b c : List α}

theorem isLE_compare_cons_iff {x y : α} : (compare (x :: a) (y :: b)).isLE = true ↔
    compare x y = .lt ∨ compare x y = .eq ∧ (compare a b).isLE = true := by
  rw [List.compare_cons_cons]
  cases compare x y <;> simp

theorem compare_of_below [Std.ReflOrd α] (h : d <+: a) (hne : d ≠ a) : compare d a = .lt := by
  obtain ⟨rest, rfl⟩ := h
  cases rest with
  | nil => exact absurd (List.append_nil d).symm hne
  | cons x rest =>
    have := compare_append_left d [] (x :: rest)
    rwa [List.append_nil] at this

/-- What lies between two lists that begin with `d` begins with `d`, too. -/
theorem prefix_of_between [Std.TransOrd α] [Std.LawfulEqOrd α] (hab : (compare a b).isLE = true)
    (hbc : (compare b c).isLE = true) (ha : d <+: a) (hc : d <+: c) : d <+: b := by
  induction d generalizing a b c with
  | nil => exact List.nil_prefix
  | cons x d ih =>
    obtain ⟨a, rfl, -⟩ := List.cons_prefix_iff.1 ha
    obtain ⟨c, rfl, -⟩ := List.cons_prefix_iff.1 hc
    cases b with
    | nil => simp [List.compare_cons_nil] at hab
    | cons y b =>
      -- the list in between cannot begin otherwise than both others do
      have hxy : (compare x y).isLE = true := by
        rcases isLE_compare_cons_iff.1 hab with h | ⟨h, -⟩ <;> rw [h] <;> rfl
      have hyx : (compare y x).isLE = true := by
        rcases isLE_compare_cons_iff.1 hbc with h | ⟨h, -⟩ <;> rw [h] <;> rfl
      obtain rfl : x = y := Std.LawfulEqOrd.eq_of_compare (Std.OrientedCmp.isLE_antisymm hxy hyx)
      simp only [isLE_compare_cons_iff, Std.ReflOrd.compare_self, reduceCtorEq, false_or, true_and] at hab hbc
      rw [List.cons_prefix_cons] at ha hc ⊢
      exact ⟨rfl, ih hab hbc ha.2 hc.2⟩

end Lists

/-- The order of byte strings is the lexicographic one. -/
theorem isLE_compare_bytes {a b : Bytes} : (compare a b).isLE = true ↔ a ≤ b := by
  induction a generalizing b with
  | nil => cases b <;> simp [List.compare_nil_cons]
  | cons x a ih =>
    cases b with
    | nil => simp [List.compare_cons_nil]
    | cons y b =>
      rw [isLE_compare_cons_iff, List.cons_le_cons_iff, ih, Std.compare_eq_lt, Std.LawfulEqOrd.compare_eq_iff_eq]

/-! ## Lists in order -/

section Pairwise

variable {α : Type} {r : α → α → Prop} {p : α → Bool} {a : α} {l : List α}
  (hbetween : ∀ a b c, r a b → r b c → p a = true → p c = true → p b = true)
include hbetween

theorem isPrefix_filter_of_pairwise (ha : p a = true) (hl : (a :: l).Pairwise r) : l.filter p <+: l := by
  induction l with
  | nil => exact List.prefix_refl []
  | cons b l ih =>
    obtain ⟨hfirst, hrest⟩ := List.pairwise_cons.1 hl
    by_cases hb : p b = true
    · rw [List.filter_cons_of_pos hb, List.prefix_cons_inj]
      exact ih (hl.sublist ((List.sublist_cons_self b l).cons_cons a))
    · have hnone : l.filter p = [] := by
        refine List.filter_eq_nil_iff.2 fun c hc hpc => hb ?_
        exact hbetween a b c (hfirst b List.mem_cons_self) ((List.pairwise_cons.1 hrest).1 c hc) ha hpc
      rw [List.filter_cons_of_neg hb, hnone]
      exact List.nil_prefix

/-- Members of a list in order stand together if what is between two of them is one of them. -/
theorem isInfix_filter_of_pairwise (hl : l.Pairwise r) : l.filter p <:+: l := by
  induction l with
  | nil => exact List.infix_refl []
  | cons a l ih =>
    by_cases ha : p a = true
    · rw [List.filter_cons_of_pos ha]
      exact ((List.prefix_cons_inj a).2 (isPrefix_filter_of_pairwise hbetween ha hl)).isInfix
    · rw [List.filter_cons_of_neg ha]
      exact List.infix_cons (ih (List.pairwise_cons.1 hl).2)

end Pairwise

namespace GrammarPath

variable {g h : GrammarPath} {d : List Name} {l l' s : List GrammarPath}

/-! ## The order of grammar paths -/

instance : Std.TransOrd GrammarPath :=
  inferInstanceAs (Std.TransCmp (compareLex (compareOn folders) (compareOn fileName)))

instance : Std.LawfulEqOrd GrammarPath where
  compare_self {g} := by
    show (compare g.folders g.folders).then (compare g.fileName g.fileName) = .eq
    rw [Std.ReflOrd.compare_self, Std.ReflOrd.compare_self]
    rfl
  eq_of_compare {g h} he := by
    obtain ⟨hfolders, hname⟩ := Ordering.then_eq_eq.1 he
    cases g
    cases h
    rw [GrammarPath.mk.injEq]
    exact ⟨Std.LawfulEqOrd.eq_of_compare hfolders, Std.LawfulEqOrd.eq_of_compare hname⟩

/-- The order is that of the directories as paths, and then that of the bytes of the names. -/
theorem compare_eq (g h : GrammarPath) :
    compare g h = (g.folder.compare h.folder).then (compare g.fileName.bytes h.fileName.bytes) := by
  rw [Path.compare, folder, folder, Path.components_ofNames, Path.components_ofNames, compare_map_name]
  rfl

/-- By the bytes of the paths it would be the other way round, as a dot is before a slash. -/
example :
    let g : GrammarPath := ⟨[.ofString "a"], .ofString "M.g"⟩
    let h : GrammarPath := ⟨[.ofString "a.b"], .ofString "M.g"⟩
    compare g h = .lt ∧ compare g.toPath.bytes h.toPath.bytes = .gt := by decide +kernel

theorem compare_eq_eq_iff : compare g h = .eq ↔ g.toPath.bytes = h.toPath.bytes := by
  rw [Std.LawfulEqOrd.compare_eq_iff_eq]
  exact ⟨fun he => by rw [he], toPath_injective⟩

/-- The grammar path is before the other one, or equal to it. -/
def atMost (g h : GrammarPath) : Bool := (compare g h).isLE

theorem atMost_antisymm (hgh : g.atMost h = true) (hhg : h.atMost g = true) : g = h :=
  Std.LawfulEqOrd.eq_of_compare (Std.OrientedCmp.isLE_antisymm hgh hhg)

theorem isLE_compare_folders (hgh : g.atMost h = true) : (compare g.folders h.folders).isLE = true :=
  Ordering.isLE_left_of_isLE_then hgh

/-- The list in order. -/
def sorted (l : List GrammarPath) : List GrammarPath := l.mergeSort atMost

theorem perm_sorted (l : List GrammarPath) : (sorted l).Perm l := List.mergeSort_perm l atMost

theorem pairwise_sorted (l : List GrammarPath) : (sorted l).Pairwise fun g h => g.atMost h = true := by
  refine List.pairwise_mergeSort (fun a b c => ?_) (fun a b => ?_) l
  · exact Std.TransOrd.isLE_trans
  · unfold atMost
    rw [Std.OrientedOrd.eq_swap (a := a)]
    cases compare b a <;> rfl

theorem eq_sorted_iff : s = sorted l ↔ s.Perm l ∧ s.Pairwise fun g h => g.atMost h = true := by
  constructor
  · rintro rfl
    exact ⟨perm_sorted l, pairwise_sorted l⟩
  · rintro ⟨hperm, hs⟩
    exact (hperm.trans (perm_sorted l).symm).eq_of_pairwise (fun _ _ _ _ => atMost_antisymm) hs (pairwise_sorted l)

theorem sorted_eq_sorted_iff : sorted l' = sorted l ↔ l'.Perm l := by
  rw [eq_sorted_iff]
  constructor
  · exact fun h => (perm_sorted l').symm.trans h.1
  · exact fun h => ⟨(perm_sorted l').trans h, pairwise_sorted l'⟩

/-! ## The tree of directories -/

/-- The grammar lies in the directory itself. -/
def liesIn (d : List Name) (g : GrammarPath) : Bool := g.folders = d

/-- The grammar lies in a directory below. -/
def liesBelow (d : List Name) (g : GrammarPath) : Bool := d.isPrefixOf g.folders && !liesIn d g

/-- The list goes through the tree of directories. -/
structure FollowsTree (l : List GrammarPath) : Prop where
  /-- The grammars in a directory itself stand together. -/
  own : ∀ d, l.filter (liesIn d) <:+: l
  /-- They are in the order of the bytes of their names. -/
  byName : ∀ d, (l.filter (liesIn d)).Pairwise fun g h => g.fileName.bytes ≤ h.fileName.bytes
  /-- No grammar from a directory below comes before one of them. -/
  ownFirst : l.Pairwise fun g h => liesBelow h.folders g = false
  /-- With those from the directories below they stand together. -/
  together : ∀ d, l.filter (fun g => liesIn d g || liesBelow d g) <:+: l

theorem liesIn_or_liesBelow_iff : (liesIn d g || liesBelow d g) = true ↔ d <+: g.folders := by
  unfold liesBelow liesIn
  by_cases hd : g.folders = d
  · simp [hd]
  · simp [hd, List.isPrefixOf_iff_prefix]

theorem followsTree_of_pairwise (hs : s.Pairwise fun g h => g.atMost h = true) : FollowsTree s where
  own d := by
    refine isInfix_filter_of_pairwise (fun a b c hab hbc ha hc => ?_) hs
    have hab := isLE_compare_folders hab
    have hbc := isLE_compare_folders hbc
    rw [liesIn, decide_eq_true_eq] at ha hc ⊢
    rw [hc, ← ha] at hbc
    rw [← ha]
    exact Std.LawfulEqOrd.eq_of_compare (Std.OrientedCmp.isLE_antisymm hbc hab)
  byName d := by
    refine (hs.filter _).imp_of_mem fun {g h} hg hh hgh => ?_
    have hg := (List.mem_filter.1 hg).2
    have hh := (List.mem_filter.1 hh).2
    rw [liesIn, decide_eq_true_eq] at hg hh
    change ((compare g.folders h.folders).then (compare g.fileName.bytes h.fileName.bytes)).isLE = true at hgh
    rw [hg, hh, Std.ReflOrd.compare_self] at hgh
    exact isLE_compare_bytes.1 hgh
  ownFirst := by
    refine hs.imp fun {g h} hgh => Bool.eq_false_iff.2 fun hbelow => ?_
    have hle := isLE_compare_folders hgh
    obtain ⟨hbegins, hne⟩ := Bool.and_eq_true_iff.1 hbelow
    rw [Bool.not_eq_true', liesIn, decide_eq_false_iff_not] at hne
    have hlt := compare_of_below (List.isPrefixOf_iff_prefix.1 hbegins) (Ne.symm hne)
    rw [Std.OrientedOrd.eq_swap, hlt] at hle
    exact Bool.false_ne_true hle
  together d := by
    refine isInfix_filter_of_pairwise (fun a b c hab hbc ha hc => ?_) hs
    rw [liesIn_or_liesBelow_iff] at ha hc ⊢
    exact prefix_of_between (isLE_compare_folders hab) (isLE_compare_folders hbc) ha hc

/-! ## Each grammar path once -/

/-- The list with one left of each run of grammar paths that the order does not tell apart. -/
def distinct (l : List GrammarPath) : List GrammarPath := l.destutter fun g h => compare g h ≠ .eq

theorem distinct_sorted (l : List GrammarPath) : distinct (sorted l) = (sorted l).dedup := by
  have : Std.Antisymm fun g h : GrammarPath => g.atMost h = true := ⟨fun _ _ => atMost_antisymm⟩
  rw [← (pairwise_sorted l).destutter_eq_dedup]
  simp only [distinct, ne_eq, Std.LawfulEqOrd.compare_eq_iff_eq]

/-- **Sorting a list of grammar paths gives one list for all the orders that it can have. The list goes through the
tree of directories, and it holds each path once as soon as of equal neighbours only one is left. Grammar paths are
equal in the order exactly if their paths are the same bytes.** -/
theorem sorted_followsTree (l : List GrammarPath) :
    (∀ g h : GrammarPath,
      compare g h = (g.folder.compare h.folder).then (compare g.fileName.bytes h.fileName.bytes)) ∧
    (∀ s, s = sorted l ↔ s.Perm l ∧ s.Pairwise fun g h => (compare g h).isLE = true) ∧
    (∀ l', sorted l' = sorted l ↔ l'.Perm l) ∧
    FollowsTree (sorted l) ∧
    (∀ g h : GrammarPath, compare g h = .eq ↔ g.toPath.bytes = h.toPath.bytes) ∧
    ((distinct (sorted l)).map (·.toPath.bytes)).Nodup ∧ ∀ g, g ∈ distinct (sorted l) ↔ g ∈ l := by
  refine ⟨compare_eq, fun s => eq_sorted_iff, fun l' => sorted_eq_sorted_iff,
    followsTree_of_pairwise (pairwise_sorted l), fun g h => compare_eq_eq_iff, ?_, fun g => ?_⟩
  · rw [distinct_sorted]
    exact (List.nodup_dedup _).map fun _ _ => toPath_injective
  · rw [distinct_sorted, List.mem_dedup, (perm_sorted l).mem_iff]

end GrammarPath

end GrammarBatch
