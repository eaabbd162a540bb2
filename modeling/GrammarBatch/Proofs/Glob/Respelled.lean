import GrammarBatch.Proofs.Glob.Compose
import Mathlib.Logic.Relation

/-!
# Spellings that match alike

One pattern has many spellings, and so has one path. Here the ways from one spelling to another are single
steps on the text, to be taken in either direction and in any combination.

* `Respaced`: another separator, or one more behind it;
* `PathStep`, `PatternStep`: the steps of a path, and those of a pattern, which also has runs of `**`;
* `PathStep.parts_eq`, `PatternStep.meaning_eq`: what a step leaves alone;
* **`Pattern.accepts_respelled`**: what any number of steps leaves alone.
-/

namespace GrammarBatch

/-- One separator of a text is spelled in another way. -/
inductive Respaced : List Char → List Char → Prop where
  /-- Another separator stands in its place. -/
  | other (a b : List Char) {c d : Char} (hc : isSeparator c = true) (hd : isSeparator d = true) :
    Respaced (a ++ c :: b) (a ++ d :: b)
  /-- It stands there twice. -/
  | again (a b : List Char) {c : Char} (hc : isSeparator c = true) : Respaced (a ++ c :: b) (a ++ c :: c :: b)

/-- One step from a spelling of a path to another. -/
inductive PathStep : List Char → List Char → Prop where
  | respaced {s t : List Char} (h : Respaced s t) : PathStep s t
  /-- A path that is not empty may end in a separator. -/
  | ending {t : List Char} {c : Char} (ht : t ≠ []) (hc : isSeparator c = true) : PathStep t (t ++ [c])

/-- One segment `**` or several in a row. -/
inductive DepthRun : List Char → Prop where
  | one : DepthRun ['*', '*']
  | more {gap run : List Char} (hne : gap ≠ []) (hgap : ∀ c ∈ gap, isSeparator c = true) (h : DepthRun run) :
    DepthRun (['*', '*'] ++ gap ++ run)

/-- One step from a spelling of a pattern to another. -/
inductive PatternStep : List Char → List Char → Prop where
  | respaced {s t : List Char} (h : Respaced s t) : PatternStep s t
  /-- A run of whole segments `**` may be a single one. -/
  | run {a b run : List Char} (ha : a = [] ∨ a.getLast?.any isSeparator = true) (hb : b = [] ∨ isRooted b = true)
    (h : DepthRun run) : PatternStep (a ++ run ++ b) (a ++ ['*', '*'] ++ b)
  /-- Behind a final separator `**` may be added. -/
  | below {p : List Char} (h : p.getLast?.any isSeparator = true) : PatternStep p (p ++ ['*', '*'])

/-! ## What a step leaves alone -/

variable {s t : List Char}

theorem Respaced.isRooted_eq (h : Respaced s t) : isRooted s = isRooted t := by
  cases h with
  | other a b hc hd => cases a <;> simp [isRooted, hc, hd]
  | again a b hc => cases a <;> simp [isRooted]

theorem Respaced.segmentsOf_eq (h : Respaced s t) : segmentsOf s = segmentsOf t := by
  cases h with
  | other a b hc hd => rw [segmentsOf_append_cons a b hc, segmentsOf_append_cons a b hd]
  | @again a b c hc =>
    have htwice : segmentsOf (c :: b) = segmentsOf b := segmentsOf_append_cons [] b hc
    rw [segmentsOf_append_cons a b hc, segmentsOf_append_cons a (c :: b) hc, htwice]

theorem Respaced.endsInSeparator_eq (h : Respaced s t) :
    s.getLast?.any isSeparator = t.getLast?.any isSeparator := by
  cases h with
  | other a b hc hd => cases b <;> simp [hc, hd]
  | again a b hc => simp [List.getLast?_cons]

theorem PathStep.parts_eq (h : PathStep s t) : (isRooted s, segmentsOf s) = (isRooted t, segmentsOf t) := by
  cases h with
  | respaced h => rw [h.isRooted_eq, h.segmentsOf_eq]
  | ending ht hc => rw [isRooted_append ht, segmentsOf_append_cons s [] hc, segmentsOf_nil, List.append_nil]

theorem segmentsOf_append_of_ends {a : List Char} (ha : a = [] ∨ a.getLast?.any isSeparator = true)
    (b : List Char) : segmentsOf (a ++ b) = segmentsOf a ++ segmentsOf b := by
  rcases ha with rfl | ha
  · rfl
  · obtain ⟨c, hc, hsep⟩ := (Option.any_eq_true _ _).1 ha
    obtain ⟨front, rfl⟩ := List.getLast?_eq_some_iff.1 hc
    have hfront : segmentsOf (front ++ [c]) = segmentsOf front := by
      rw [segmentsOf_append_cons front [] hsep, segmentsOf_nil, List.append_nil]
    rw [hfront, List.append_assoc]
    exact segmentsOf_append_cons front b hsep

theorem segmentsOf_append_of_starts {b : List Char} (hb : b = [] ∨ isRooted b = true) (a : List Char) :
    segmentsOf (a ++ b) = segmentsOf a ++ segmentsOf b := by
  rcases hb with rfl | hb
  · rw [List.append_nil, segmentsOf_nil, List.append_nil]
  · cases b with
    | nil => cases hb
    | cons c b =>
      have hc : isSeparator c = true := hb
      have hfirst : segmentsOf (c :: b) = segmentsOf b := segmentsOf_append_cons [] b hc
      rw [segmentsOf_append_cons a b hc, hfirst]

theorem segmentsOf_gap {gap : List Char} (h : ∀ c ∈ gap, isSeparator c = true) (b : List Char) :
    segmentsOf (gap ++ b) = segmentsOf b := by
  induction gap with
  | nil => rfl
  | cons c gap ih =>
    have hc : isSeparator c = true := h c List.mem_cons_self
    rw [← ih fun d hd => h d (List.mem_cons_of_mem c hd)]
    exact segmentsOf_append_cons [] (gap ++ b) hc

namespace DepthRun

variable {run : List Char}

theorem segmentsOf_more {gap : List Char} (hne : gap ≠ []) (hgap : ∀ c ∈ gap, isSeparator c = true)
    (run : List Char) : segmentsOf (['*', '*'] ++ gap ++ run) = ['*', '*'] :: segmentsOf run := by
  obtain ⟨c, gap, rfl⟩ := List.exists_cons_of_ne_nil hne
  have hc : isSeparator c = true := hgap c List.mem_cons_self
  have hrest : ∀ d ∈ gap, isSeparator d = true := fun d hd => hgap d (List.mem_cons_of_mem c hd)
  have hstars : segmentsOf ['*', '*'] = [['*', '*']] := by decide
  rw [List.append_assoc, @List.cons_append _ c gap run, segmentsOf_append_cons _ _ hc, segmentsOf_gap hrest, hstars]
  rfl

theorem acceptsSegments_eq (h : DepthRun run) (path : List (List Char)) :
    Pattern.acceptsSegments ((segmentsOf run).map Pattern.Segment.parse) path =
      Pattern.acceptsSegments [.anyDepth] path := by
  induction h generalizing path with
  | one => rfl
  | @more gap run hne hgap h ih =>
    rw [segmentsOf_more hne hgap, List.map_cons, Pattern.acceptsSegments_cons_congr _ ih]
    exact Pattern.acceptsSegments_anyDepth_anyDepth [] path

theorem getLast?_eq (h : DepthRun run) : run.getLast? = some '*' := by
  induction h with
  | one => rfl
  | more hne hgap h ih => rw [List.getLast?_append, ih, Option.some_or]

theorem isRooted_eq (h : DepthRun run) : isRooted run = false := by
  cases h <;> rfl

theorem ne_nil (h : DepthRun run) : run ≠ [] := by
  rintro rfl
  cases h.getLast?_eq

end DepthRun

namespace Pattern

/-- What is left of a pattern where its spelling does not count: whether it is rooted, and which lists of
segments it takes. -/
def meaning (cs : List Char) : Bool × (List (List Char) → Bool) :=
  (isRooted cs, acceptsSegments ((spelled cs).map Segment.parse))

theorem meaning_of_run {a b run : List Char} (ha : a = [] ∨ a.getLast?.any isSeparator = true)
    (hb : b = [] ∨ isRooted b = true) (h : DepthRun run) :
    meaning (a ++ run ++ b) = meaning (a ++ ['*', '*'] ++ b) := by
  have hrooted {run : List Char} (h : DepthRun run) : isRooted (a ++ run ++ b) = isRooted a := by
    cases a with
    | nil => exact (isRooted_append h.ne_nil).trans h.isRooted_eq
    | cons c a => rfl
  have hlast {run : List Char} (h : DepthRun run) :
      (a ++ run ++ b).getLast?.any isSeparator = b.getLast?.any isSeparator := by
    rw [List.getLast?_append, List.getLast?_append, h.getLast?_eq]
    cases b.getLast? <;> rfl
  have hspelled {run : List Char} (h : DepthRun run) : spelled (a ++ run ++ b) =
      segmentsOf a ++ segmentsOf run ++ spelled b := by
    rw [spelled, spelled, segmentsOf_append_of_starts hb, segmentsOf_append_of_ends ha, hlast h,
      List.append_assoc _ (segmentsOf b)]
  refine Prod.ext ((hrooted h).trans (hrooted .one).symm) (funext fun path => ?_)
  change acceptsSegments _ path = acceptsSegments _ path
  rw [hspelled h, hspelled .one, List.map_append, List.map_append, List.map_append, List.map_append]
  refine acceptsSegments_append_congr (fun path => ?_) (fun _ => rfl) path
  exact acceptsSegments_append_congr (fun _ => rfl) h.acceptsSegments_eq path

theorem meaning_of_below {p : List Char} (h : p.getLast?.any isSeparator = true) :
    meaning p = meaning (p ++ ['*', '*']) := by
  have hne : p ≠ [] := by
    rintro rfl
    cases h
  have hlast : (p ++ ['*', '*']).getLast?.any isSeparator = false := by
    rw [List.getLast?_append]
    rfl
  have hspelled : spelled (p ++ ['*', '*']) = spelled p := by
    rw [spelled_of_not_endsInSeparator hlast, segmentsOf_append_of_ends (Or.inr h), spelled, if_pos h]
    rfl
  rw [meaning, meaning, isRooted_append hne, hspelled]

/-- A step leaves a pattern with its meaning. -/
theorem meaning_eq {p q : List Char} (h : PatternStep p q) : meaning p = meaning q := by
  cases h with
  | respaced h =>
    rw [meaning, meaning, spelled, spelled, h.isRooted_eq, h.segmentsOf_eq, h.endsInSeparator_eq]
  | run ha hb h => exact meaning_of_run ha hb h
  | below h => exact meaning_of_below h

theorem accepts_eq_meaning (p t : String) : (parse p).accepts t =
    (isRooted t.toList == (meaning p.toList).1 && (meaning p.toList).2 (segmentsOf t.toList)) :=
  accepts_parse_eq p t

/-- What no step changes is the same at both ends of a chain of steps. -/
theorem eq_of_eqvGen {α β : Type} {r : α → α → Prop} {f : α → β} (h : ∀ a b, r a b → f a = f b) {a b : α}
    (hab : Relation.EqvGen r a b) : f a = f b := by
  induction hab with
  | rel a b hr => exact h a b hr
  | refl a => rfl
  | symm a b _ ih => exact ih.symm
  | trans a b c _ _ ihab ihbc => exact ihab.trans ihbc

/-- **A pattern accepts a path in each of their spellings or in none.** -/
theorem accepts_respelled {p p' t t' : String} (hp : Relation.EqvGen PatternStep p.toList p'.toList)
    (ht : Relation.EqvGen PathStep t.toList t'.toList) : (parse p).accepts t = (parse p').accepts t' := by
  have hparts : (isRooted t.toList, segmentsOf t.toList) = (isRooted t'.toList, segmentsOf t'.toList) :=
    eq_of_eqvGen (f := fun t => (isRooted t, segmentsOf t)) (fun _ _ h => h.parts_eq) ht
  obtain ⟨hrooted, hsegments⟩ := Prod.mk.inj hparts
  rw [accepts_eq_meaning, accepts_eq_meaning, eq_of_eqvGen (fun _ _ h => meaning_eq h) hp, hrooted, hsegments]

/-- A pattern of nothing but separators and `**` is another spelling of `/`, and takes a path below the root in
another spelling too. -/
theorem accepts_respelled_root :
    Relation.EqvGen PatternStep "\\**//**".toList "/".toList ∧
    Relation.EqvGen PathStep "\\x".toList "//x/".toList ∧
    (parse "/").accepts "//x/" = true ∧ (parse "\\**//**").accepts "\\x" = true := by
  have hslash : PatternStep "\\**//**".toList "/**//**".toList := .respaced (.other [] _ (by decide) (by decide))
  have hrun : PatternStep "/**//**".toList "/**".toList :=
    .run (a := ['/']) (b := []) (Or.inr (by decide)) (Or.inl rfl)
      (@DepthRun.more ['/', '/'] _ (by simp) (by simp [isSeparator]) .one)
  have hbelow : PatternStep "/".toList "/**".toList := .below (by decide)
  have hpattern : Relation.EqvGen PatternStep "\\**//**".toList "/".toList :=
    .trans _ _ _ (.rel _ _ hslash) (.trans _ _ _ (.rel _ _ hrun) (.symm _ _ (.rel _ _ hbelow)))
  have hother : PathStep "\\x".toList "/x".toList := .respaced (.other [] _ (by decide) (by decide))
  have hagain : PathStep "/x".toList "//x".toList := .respaced (.again [] _ (by decide))
  have hending : PathStep "//x".toList "//x/".toList := .ending (by simp) (by decide)
  have hpath : Relation.EqvGen PathStep "\\x".toList "//x/".toList :=
    .trans _ _ _ (.rel _ _ hother) (.trans _ _ _ (.rel _ _ hagain) (.rel _ _ hending))
  have htakes : (parse "/").accepts "//x/" = true := by decide +kernel
  exact ⟨hpattern, hpath, htakes, (accepts_respelled hpattern hpath).trans htakes⟩

end Pattern

end GrammarBatch
