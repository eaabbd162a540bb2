import GrammarBatch.Proofs.Except
import GrammarBatch.Proofs.Files.Folders
import GrammarBatch.Proofs.Files.Walk

/-!
# One link more

* `FileSystem.AddsLink`: a file system that has one symbolic link more than another one;
* `FileSystem.find_addsLink`: what a path leads to it still leads to;
* `FileSystem.walkFrom_away`: a walk that does not come to the link stays as it is;
* **`FileSystem.map_walkFrom_addsLink`**: if what a walk finds through the link does not count, the walk gives
  what it gave without the link, or fails as it did.
-/

namespace GrammarBatch

/-! ## Counting what steps find -/

section Count

variable {ε α β γ : Type} {g g' : α → Except ε (List β)} {φ : List β → List γ}

theorem flatten_mapM_cons (g : α → Except ε (List β)) (x : α) (l : List α) :
    ((x :: l).mapM g).map List.flatten = g x >>= fun a => ((l.mapM g).map List.flatten).map (a ++ ·) := by
  rw [List.mapM_cons]
  cases g x with
  | error e => rfl
  | ok a => cases l.mapM g <;> rfl

theorem map_flatten_mapM (hφ : ∀ a b, φ (a ++ b) = φ a ++ φ b) (g : α → Except ε (List β)) (l : List α) :
    ((l.mapM g).map List.flatten).map φ = (l.mapM fun x => (g x).map φ).map List.flatten := by
  have hnil : φ [] = [] := by simpa using hφ [] []
  induction l with
  | nil => exact congrArg Except.ok hnil
  | cons x l ih =>
    rw [flatten_mapM_cons, flatten_mapM_cons, ← ih]
    cases g x with
    | error e => rfl
    | ok a =>
      cases (l.mapM g).map List.flatten with
      | error e => rfl
      | ok b => exact congrArg Except.ok (hφ a b)

/-- A step that finds nothing may be left out. -/
theorem flatten_mapM_insert {y : α} (hy : g y = .ok []) (l r : List α) :
    ((l ++ y :: r).mapM g).map List.flatten = ((l ++ r).mapM g).map List.flatten := by
  induction l with
  | nil =>
    rw [List.nil_append, List.nil_append, flatten_mapM_cons, hy]
    cases (r.mapM g).map List.flatten <;> rfl
  | cons x l ih => rw [List.cons_append, List.cons_append, flatten_mapM_cons, flatten_mapM_cons, ih]

end Count

/-! ## Below a directory -/

namespace Place

variable {d p q : Place} {m n : Name}

theorem isWithin_iff : p.isWithin d = true ↔ d.names <:+ p.names := by
  rw [isWithin, List.isSuffixOf_iff_suffix]

theorem isWithin_refl (p : Place) : p.isWithin p = true := isWithin_iff.2 (List.suffix_refl _)

theorem isWithin_of_child (h : p.isWithin (d.child n) = true) : p.isWithin d = true :=
  isWithin_iff.2 ((List.suffix_cons n d.names).trans (isWithin_iff.1 h))

theorem isWithin_child (h : p.isWithin d = true) (n : Name) : (p.child n).isWithin d = true :=
  isWithin_iff.2 ((isWithin_iff.1 h).trans (List.suffix_cons n p.names))

/-- What is below an entry of a directory is below no other entry of it. -/
theorem eq_of_isWithin_child (hm : p.isWithin (d.child m) = true) (hn : p.isWithin (d.child n) = true) :
    m = n := by
  have hsuffix : m :: d.names <:+ n :: d.names :=
    List.suffix_of_suffix_length_le (isWithin_iff.1 hm) (isWithin_iff.1 hn) (by simp)
  exact (List.cons.inj (hsuffix.eq_of_length (by simp))).1

end Place

namespace Walked

/-- The directory of that name in a directory that is walked. -/
def down (w : Walked) (n : Name) : Walked := ⟨w.place.child n, w.path.join ⟨n.bytes⟩⟩

/-- The directory that the names lead down to. -/
def descend (w : Walked) (names : List Name) : Walked := names.foldl down w

/-- The directories on the way there, the nearest first. -/
def above (w : Walked) : List Name → List Walked
  | [] => []
  | n :: names => (w.down n).above names ++ [w]

variable {w : Walked} {n : Name} {names : List Name}

theorem descend_cons : w.descend (n :: names) = (w.down n).descend names := rfl

theorem depth_descend (w : Walked) (names : List Name) :
    (w.descend names).place.depth = w.place.depth + names.length := by
  induction names generalizing w with
  | nil => rfl
  | cons n names ih =>
    have hdown : (w.down n).place.depth = w.place.depth + 1 := rfl
    rw [descend_cons, ih, hdown, List.length_cons]
    omega

theorem isWithin_descend (w : Walked) (names : List Name) : (w.descend names).place.isWithin w.place = true := by
  induction names generalizing w with
  | nil => exact Place.isWithin_refl _
  | cons n names ih => exact Place.isWithin_of_child (ih (w.down n))

end Walked

namespace FileSystem

variable {fs fs' : FileSystem} {current d p q : Place} {path target : Path} {n : Name} {e : Entry}

/-! ## Down through directories -/

section Down

variable {names rest : List Name} {top : Walked} {stack : List Walked}

/-- The names lead down through directories that are there. -/
def Descends (fs : FileSystem) (w : Walked) : List Name → Prop
  | [] => True
  | n :: names => fs.get? (w.down n).place = some .directory ∧ fs.Descends (w.down n) names

theorem Descends.extends_of (h : fs'.Extends fs) {w : Walked} (hw : fs.Descends w names) : fs'.Descends w names := by
  induction names generalizing w with
  | nil => trivial
  | cons n names ih => exact ⟨h _ _ hw.1, ih hw.2⟩

theorem leads_of_descends (h : fs.Descends top names)
    (hl : Leads fs current (top.descend names).place (top.descend names).path rest q e) :
    Leads fs current top.place top.path (names ++ rest) q e := by
  induction names generalizing top with
  | nil => exact hl
  | cons m names ih => exact .down (target?_of_entry h.1 nofun) (ih h.2 hl)

theorem walkFails_of_descends (h : fs.Descends top names)
    (hf : FailsAt fs current (top.descend names).place ((top.above names ++ stack).map (·.place))
      ((top.descend names).path.join ⟨n.bytes⟩) n) :
    WalkFails fs current top.place (stack.map (·.place)) top.path := by
  induction names generalizing top stack with
  | nil => exact walkFails_iff.2 (Or.inr ⟨n, hf⟩)
  | cons m names ih =>
    rw [Walked.above, List.append_assoc, List.singleton_append] at hf
    exact .within m _ (target?_of_entry h.1 nofun) (ih h.2 hf)

end Down

/-! ## The link -/

/-- The file system `fs'` has a symbolic link at `p` where `fs` has nothing, and is the same elsewhere. It may
list the link anywhere between the other entries. -/
structure AddsLink (fs fs' : FileSystem) (p : Place) (target : Path) : Prop where
  ne_root : p ≠ .root
  entries : ∃ before after, fs.entries = before ++ after ∧ fs'.entries = before ++ (p, .link target) :: after

namespace AddsLink

variable (h : AddsLink fs fs' p target)

include h

theorem get?_self : fs'.get? p = some (.link target) := by
  obtain ⟨before, after, -, hfs'⟩ := h.entries
  rw [get?, if_neg h.ne_root, lookup_eq_some_iff_mem fs'.nodup, hfs']
  simp

theorem get?_of_ne (hq : q ≠ p) : fs'.get? q = fs.get? q := by
  obtain ⟨before, after, hfs, hfs'⟩ := h.entries
  by_cases hroot : q = .root
  · rw [get?, get?, if_pos hroot, if_pos hroot]
  · ext e
    rw [get?, get?, if_neg hroot, if_neg hroot, lookup_eq_some_iff_mem fs'.nodup, lookup_eq_some_iff_mem fs.nodup,
      hfs, hfs']
    simp [hq]

theorem get?_eq_none : fs.get? p = none := by
  obtain ⟨before, after, hfs, hfs'⟩ := h.entries
  have hnodup := fs'.nodup
  rw [hfs', List.map_append, List.map_cons, List.nodup_middle, List.nodup_cons, ← List.map_append, ← hfs] at hnodup
  rw [Option.eq_none_iff_forall_ne_some]
  intro e he
  rw [get?, if_neg h.ne_root, lookup_eq_some_iff_mem fs.nodup] at he
  exact hnodup.1 (List.mem_map.2 ⟨(p, e), he, rfl⟩)

theorem extends_of : fs'.Extends fs := by
  intro q e hq
  by_cases hp : q = p
  · rw [hp, h.get?_eq_none] at hq
    cases hq
  · rw [h.get?_of_ne hp, hq]

theorem isDirectoryAt_eq (q : Place) : fs'.isDirectoryAt q = fs.isDirectoryAt q := by
  by_cases hp : q = p
  · rw [hp, isDirectoryAt, isDirectoryAt, h.get?_self, h.get?_eq_none]
    simp
  · rw [isDirectoryAt, isDirectoryAt, h.get?_of_ne hp]

theorem around_eq (names : List Name) : fs'.around names = fs.around names := by
  induction names with
  | nil => rfl
  | cons n names ih => rw [around, around, h.isDirectoryAt_eq, ih]

theorem find_eq_ok {atEnd : Bool} (hf : fs.find current path atEnd = .ok (q, e)) :
    fs'.find current path atEnd = .ok (q, e) := by
  rw [find] at hf ⊢
  split at hf
  · cases hf
  · exact follow_extends_of (I := fun _ => True) h.extends_of trivial (fun _ _ _ _ => trivial)
      (fun q _ _ => ⟨h.around_eq q.names, trivial⟩) trivial hf

/-- Only the directory that the link is in lists it. -/
theorem children_eq (hd : ∀ m, p ≠ d.child m) : fs'.children d = fs.children d := by
  obtain ⟨before, after, hfs, hfs'⟩ := h.entries
  have hno : nameIn? d p = none := by
    rw [Option.eq_none_iff_forall_ne_some]
    intro m hm
    exact hd m (nameIn?_eq_some_iff.1 hm)
  rw [children, children, hfs, hfs']
  simp [List.filterMap_append, hno]

theorem exists_children (hp : p = d.child n) : ∃ before after, fs.children d = before ++ after ∧
    fs'.children d = before ++ (n, .link target) :: after := by
  obtain ⟨before, after, hfs, hfs'⟩ := h.entries
  have hyes : nameIn? d p = some n := nameIn?_eq_some_iff.2 hp
  rw [children, children, hfs, hfs']
  rw [List.filterMap_append, List.filterMap_append, List.filterMap_cons]
  simp only [hyes, Option.map_some]
  exact ⟨_, _, rfl, rfl⟩

end AddsLink

/-! ## Walking with the link -/

section Walk

variable {way names : List Name} {top : Walked} {stack : List Walked} {x : Name × Entry}

/-- There is no symbolic link below the directory. -/
def Unlinked (fs : FileSystem) (d : Place) : Prop := ∀ q link, q.isWithin d = true → fs.get? q ≠ some (.link link)

theorem Unlinked.child (h : fs.Unlinked d) (n : Name) : fs.Unlinked (d.child n) :=
  fun q link hq => h q link (Place.isWithin_of_child hq)

/-- Without links, the entries of a directory are visited alike if their directories are walked alike. -/
theorem visit_congr (hplain : fs.Unlinked top.place) (hx : x ∈ fs.children top.place)
    (hwalk : x.2 = .directory → fs'.walkFrom current (way ++ [x.1]) (top.down x.1) (top :: stack) =
      fs.walkFrom current (way ++ [x.1]) (top.down x.1) (top :: stack)) :
    visit fs' current way top stack x = visit fs current way top stack x := by
  obtain ⟨n, e⟩ := x
  cases e with
  | file f => rfl
  | special => rfl
  | directory => exact hwalk rfl
  | link link =>
    have hin := Place.isWithin_child (Place.isWithin_refl top.place) n
    exact absurd (mem_children_iff.1 hx) (hplain _ link hin)

/-- **A walk that does not come to the link stays as it is.** -/
theorem walkFrom_away (h : AddsLink fs fs' p target) (hplain : fs.Unlinked top.place)
    (haway : ¬p.isWithin top.place = true) :
    fs'.walkFrom current way top stack = fs.walkFrom current way top stack := by
  induction way, top, stack using walkFrom.induct fs current with
  | case1 way top stack hlong _ _ => rw [walkFrom_eq, walkFrom_eq, if_pos hlong, if_pos hlong]
  | case2 way top stack hlong ihd _ =>
    have hchild (m : Name) : ¬p.isWithin (top.place.child m) = true :=
      fun hp => haway (Place.isWithin_of_child hp)
    have hchildren : fs'.children top.place = fs.children top.place := by
      refine h.children_eq fun m hp => hchild m ?_
      rw [hp]
      exact Place.isWithin_refl _
    have hvisit : ∀ x ∈ fs.children top.place,
        visit fs' current way top stack x = visit fs current way top stack x := by
      rintro ⟨m, e⟩ hx
      refine visit_congr hplain hx fun he => ?_
      obtain rfl : e = .directory := he
      exact ihd m .directory hx (hplain.child m) (hchild m)
    rw [walkFrom_eq, walkFrom_eq, if_neg hlong, if_neg hlong, hchildren, mapM_congr_left hvisit]

theorem visit_away (h : AddsLink fs fs' p target) (hplain : fs.Unlinked top.place) (hx : x ∈ fs.children top.place)
    (haway : ¬p.isWithin (top.place.child x.1) = true) :
    visit fs' current way top stack x = visit fs current way top stack x :=
  visit_congr hplain hx fun _ => walkFrom_away h (hplain.child x.1) haway

variable {γ : Type} {φ : List (List Name) → List γ}

/-- **If nothing counts that is found through the link, a walk gives what it gave without it, or fails as it
did.** -/
theorem map_walkFrom_addsLink (hφ : ∀ a b, φ (a ++ b) = φ a ++ φ b) {front : List Name}
    (h : AddsLink fs fs' ((top.descend front).place.child n) target) (hplain : fs.Unlinked top.place)
    (hlink : (visit fs' current (way ++ front) (top.descend front) (top.above front ++ stack)
      (n, .link target)).map φ = .ok []) :
    (fs'.walkFrom current way top stack).map φ = (fs.walkFrom current way top stack).map φ := by
  -- On the way to the link one entry of each directory is not visited as before, and at its end there is one more.
  induction front generalizing way top stack with
  | nil =>
    obtain ⟨before, after, hfs, hfs'⟩ := h.exists_children (d := top.place) rfl
    have hvisit : ∀ x ∈ fs.children top.place,
        (visit fs' current way top stack x).map φ = (visit fs current way top stack x).map φ := by
      intro x hx
      rw [visit_away h hplain hx]
      intro hin
      have hxn := Place.eq_of_isWithin_child hin (Place.isWithin_refl _)
      have hget := mem_children_iff.1 hx
      rw [hxn] at hget
      exact absurd (h.get?_eq_none.symm.trans hget) nofun
    rw [Walked.above, List.nil_append, List.append_nil] at hlink
    have hskip := flatten_mapM_insert (g := fun x => (visit fs' current way top stack x).map φ) hlink before after
    rw [walkFrom_eq, walkFrom_eq]
    by_cases hlong : pathBound ≤ top.path.bytes.length
    · rw [if_pos hlong, if_pos hlong]
    · rw [if_neg hlong, if_neg hlong, map_flatten_mapM hφ, map_flatten_mapM hφ, hfs', hskip, ← hfs,
        mapM_congr_left hvisit]
  | cons m front ih =>
    have hchildren : fs'.children top.place = fs.children top.place := by
      refine h.children_eq fun k hk => ?_
      have hdepth := congrArg Place.depth hk
      rw [Place.depth_child, Place.depth_child, Walked.depth_descend, List.length_cons] at hdepth
      omega
    have hvisit : ∀ x ∈ fs.children top.place,
        (visit fs' current way top stack x).map φ = (visit fs current way top stack x).map φ := by
      rintro ⟨k, e⟩ hx
      by_cases hk : k = m
      · subst hk
        have hway : way ++ k :: front = way ++ [k] ++ front := List.append_cons way k front
        have habove : top.above (k :: front) ++ stack = (top.down k).above front ++ top :: stack := by
          rw [Walked.above, List.append_assoc, List.singleton_append]
        rw [hway, habove] at hlink
        cases e with
        | directory => exact ih h (hplain.child k) hlink
        | file f => rfl
        | special => rfl
        | link link =>
          have hin := Place.isWithin_child (Place.isWithin_refl top.place) k
          exact absurd (mem_children_iff.1 hx) (hplain _ link hin)
      · rw [visit_away h hplain hx]
        intro hin
        have hway := Place.isWithin_child (Walked.isWithin_descend (top.down m) front) n
        exact hk (Place.eq_of_isWithin_child hin hway)
    rw [walkFrom_eq, walkFrom_eq]
    by_cases hlong : pathBound ≤ top.path.bytes.length
    · rw [if_pos hlong, if_pos hlong]
    · rw [if_neg hlong, if_neg hlong, map_flatten_mapM hφ, map_flatten_mapM hφ, hchildren,
        mapM_congr_left hvisit]

end Walk

end FileSystem

end GrammarBatch
