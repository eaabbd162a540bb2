import GrammarBatch.Files.Walk
import Mathlib.Data.List.Nodup

/-!
# What a walk finds

Names lead from a directory to an entry, links followed, if each of them but the last leads to a directory
again. A walk visits every entry that names lead to, once for each list of names, unless it meets a failure.

* `mem_children_iff`, `nodup_children`: a directory lists each of its entries once;
* `FileSystem.target?`, `FileSystem.Leads`: what one name, and what a list of names leads to;
* `FileSystem.WalkFails`: the walk meets a path that is too long, a link that leads nowhere, or a link to a
  directory that is being walked;
* **`answers_walkFrom`**: the walk fails exactly then, and else finds exactly the names that lead to files;
* `leads_congr`, `walkFails_congr`: the order in which directories list their entries does not matter.
-/

namespace GrammarBatch.FileSystem

variable {fs fs' : FileSystem} {current d p q : Place} {path : Path} {n : Name} {e : Entry}

/-! ## Listing a directory -/

theorem nameIn?_eq_some_iff : nameIn? d p = some n ↔ p = d.child n := by
  constructor
  · exact eq_child_of_nameIn?
  · rintro rfl
    simp [nameIn?]

theorem lookup_eq_some_iff_mem {l : List (Place × Entry)} (h : (l.map Prod.fst).Nodup) :
    l.lookup p = some e ↔ (p, e) ∈ l := by
  induction l with
  | nil => simp
  | cons x l ih =>
    obtain ⟨q, e'⟩ := x
    obtain ⟨hq, hl⟩ := List.nodup_cons.1 h
    by_cases hp : p = q
    · subst hp
      have hno : (p, e) ∉ l := fun hm => hq (List.mem_map.2 ⟨(p, e), hm, rfl⟩)
      simp [hno, eq_comm]
    · simp [List.lookup_cons, beq_false_of_ne hp, hp, ih hl]

/-- A directory lists exactly the entries that are at the places in it. -/
theorem mem_children_iff : (n, e) ∈ fs.children d ↔ fs.get? (d.child n) = some e := by
  rw [get?, if_neg (Place.child_ne_root d n), lookup_eq_some_iff_mem fs.nodup]
  constructor
  · exact mem_entries_of_mem_children
  · intro h
    exact List.mem_filterMap.2 ⟨(d.child n, e), h, by simp [nameIn?_eq_some_iff.2 rfl]⟩

/-- A directory lists each name once. -/
theorem nodup_children (fs : FileSystem) (d : Place) : ((fs.children d).map Prod.fst).Nodup := by
  have h : (fs.children d).map Prod.fst = (fs.entries.map Prod.fst).filterMap (nameIn? d) := by
    rw [children, List.map_filterMap, List.filterMap_map]
    congr 1
    funext ⟨p, e⟩
    simp [Option.map_map, Function.comp_def]
  rw [h]
  refine List.Nodup.filterMap (fun p q n hp hq => ?_) fs.nodup
  rw [nameIn?_eq_some_iff.1 hp, nameIn?_eq_some_iff.1 hq]

/-! ## Where names lead -/

/-- What the entry of that name in the directory at `d` leads to; `path` is the path of the entry, which
the system follows if the entry is a link. -/
def target? (fs : FileSystem) (current d : Place) (path : Path) (n : Name) :
    Option (Except SystemError (Place × Entry)) :=
  (fs.get? (d.child n)).map fun
    | .link _ => fs.find current path true
    | e => .ok (d.child n, e)

/-- The names lead from the directory at `d`, whose path is `path`, to the entry `e` at the place `q`,
links followed. -/
inductive Leads (fs : FileSystem) (current : Place) :
    (d : Place) → (path : Path) → List Name → (q : Place) → (e : Entry) → Prop where
  /-- The last name leads to the entry. -/
  | last {d q : Place} {path : Path} {n : Name} {e : Entry} :
    fs.target? current d (path.join ⟨n.bytes⟩) n = some (.ok (q, e)) → Leads fs current d path [n] q e
  /-- Every name before it leads to a directory. -/
  | down {d p q : Place} {path : Path} {n : Name} {names : List Name} {e : Entry} :
    fs.target? current d (path.join ⟨n.bytes⟩) n = some (.ok (p, .directory)) →
    Leads fs current p (path.join ⟨n.bytes⟩) names q e → Leads fs current d path (n :: names) q e

/-- A walk fails below the directory at `d`, whose path is `path` and which was reached through the
directories `above`, the nearest first. -/
inductive WalkFails (fs : FileSystem) (current : Place) :
    (d : Place) → (above : List Place) → (path : Path) → Prop where
  /-- The path of the directory is too long to be listed. -/
  | tooLong {d : Place} {above : List Place} {path : Path} :
    pathBound ≤ path.bytes.length → WalkFails fs current d above path
  /-- An entry leads nowhere. -/
  | broken {d : Place} {above : List Place} {path : Path} (n : Name) (cause : SystemError) :
    fs.target? current d (path.join ⟨n.bytes⟩) n = some (.error cause) → WalkFails fs current d above path
  /-- A link leads back to a directory on the way. -/
  | loop {d : Place} {above : List Place} {path : Path} (n : Name) (link : Path) (p : Place) :
    fs.get? (d.child n) = some (.link link) →
    fs.find current (path.join ⟨n.bytes⟩) true = .ok (p, .directory) → p ∈ d :: above →
    WalkFails fs current d above path
  /-- The walk fails below a directory in this one. -/
  | within {d : Place} {above : List Place} {path : Path} (n : Name) (p : Place) :
    fs.target? current d (path.join ⟨n.bytes⟩) n = some (.ok (p, .directory)) →
    WalkFails fs current p (d :: above) (path.join ⟨n.bytes⟩) → WalkFails fs current d above path

theorem target?_of_entry (h : fs.get? (d.child n) = some e) (hl : ∀ link, e ≠ .link link) :
    fs.target? current d path n = some (.ok (d.child n, e)) := by
  rw [target?, h]
  cases e with
  | link link => exact absurd rfl (hl link)
  | _ => rfl

theorem target?_of_link {link : Path} (h : fs.get? (d.child n) = some (.link link)) :
    fs.target? current d path n = some (fs.find current path true) := by
  rw [target?, h]
  rfl

theorem exists_entry_of_target? {r : Except SystemError (Place × Entry)}
    (h : fs.target? current d path n = some r) : ∃ e, fs.get? (d.child n) = some e := by
  rw [target?] at h
  obtain ⟨e, he, -⟩ := Option.map_eq_some_iff.1 h
  exact ⟨e, he⟩

theorem leads_cons_iff {names : List Name} : Leads fs current d path (n :: names) q e ↔
    (names = [] ∧ fs.target? current d (path.join ⟨n.bytes⟩) n = some (.ok (q, e))) ∨
      ∃ p, fs.target? current d (path.join ⟨n.bytes⟩) n = some (.ok (p, .directory)) ∧
        Leads fs current p (path.join ⟨n.bytes⟩) names q e := by
  constructor
  · intro h
    cases h with
    | last h => exact Or.inl ⟨rfl, h⟩
    | down ht h => exact Or.inr ⟨_, ht, h⟩
  · rintro (⟨rfl, h⟩ | ⟨p, ht, h⟩)
    · exact .last h
    · exact .down ht h

theorem Leads.exists_entry {names : List Name} (h : Leads fs current d path (n :: names) q e) :
    ∃ e, fs.get? (d.child n) = some e := by
  cases h with
  | last h => exact exists_entry_of_target? h
  | down h _ => exact exists_entry_of_target? h

theorem not_leads_nil : ¬ Leads fs current d path [] q e := nofun

/-- Names lead to one entry at most. -/
theorem Leads.unique {names : List Name} {q' : Place} {e' : Entry} (h : Leads fs current d path names q e)
    (h' : Leads fs current d path names q' e') : q = q' ∧ e = e' := by
  induction h with
  | last h =>
    rcases leads_cons_iff.1 h' with ⟨-, h''⟩ | ⟨_, -, h''⟩
    · rw [h] at h''
      cases h''
      exact ⟨rfl, rfl⟩
    · exact absurd h'' not_leads_nil
  | down ht h ih =>
    rcases leads_cons_iff.1 h' with ⟨rfl, -⟩ | ⟨p, hp, h''⟩
    · exact absurd h not_leads_nil
    · rw [ht] at hp
      cases hp
      exact ih h''

/-! ## Visiting the entries of a directory -/

/-- The walk fails at the entry of that name, or below it. -/
def FailsAt (fs : FileSystem) (current d : Place) (above : List Place) (path : Path) (n : Name) : Prop :=
  (∃ cause, fs.target? current d path n = some (.error cause)) ∨
    (∃ link p, fs.get? (d.child n) = some (.link link) ∧ fs.find current path true = .ok (p, .directory) ∧
      p ∈ d :: above) ∨
    ∃ p, fs.target? current d path n = some (.ok (p, .directory)) ∧
      WalkFails fs current p (d :: above) path

theorem FailsAt.exists_entry {above : List Place} (h : FailsAt fs current d above path n) :
    ∃ e, fs.get? (d.child n) = some e := by
  rcases h with ⟨cause, h⟩ | ⟨link, p, h, -⟩ | ⟨p, h, -⟩
  · exact exists_entry_of_target? h
  · exact ⟨_, h⟩
  · exact exists_entry_of_target? h

theorem walkFails_iff {above : List Place} : WalkFails fs current d above path ↔
    pathBound ≤ path.bytes.length ∨ ∃ n, FailsAt fs current d above (path.join ⟨n.bytes⟩) n := by
  constructor
  · intro h
    cases h with
    | tooLong h => exact Or.inl h
    | broken n cause h => exact Or.inr ⟨n, Or.inl ⟨cause, h⟩⟩
    | loop n link p hl hf hp => exact Or.inr ⟨n, Or.inr (Or.inl ⟨link, p, hl, hf, hp⟩)⟩
    | within n p ht h => exact Or.inr ⟨n, Or.inr (Or.inr ⟨p, ht, h⟩)⟩
  · rintro (h | ⟨n, ⟨cause, h⟩ | ⟨link, p, hl, hf, hp⟩ | ⟨p, ht, h⟩⟩)
    · exact .tooLong h
    · exact .broken n cause h
    · exact .loop n link p hl hf hp
    · exact .within n p ht h

/-- An answer that fails where it should, and else lists each of the ways that should be found once. -/
def Answers (fails : Prop) (found : List Name → Prop) : Except WalkError (List (List Name)) → Prop
  | .error _ => fails
  | .ok ways => ¬ fails ∧ ways.Nodup ∧ ∀ way, way ∈ ways ↔ found way

theorem Answers.congr {fails fails' : Prop} {found found' : List Name → Prop}
    {r : Except WalkError (List (List Name))} (h : Answers fails found r) (hf : fails ↔ fails')
    (hw : ∀ way, found way ↔ found' way) : Answers fails' found' r := by
  cases r with
  | error e => exact hf.1 h
  | ok ways => exact ⟨fun hno => h.1 (hf.2 hno), h.2.1, fun way => (h.2.2 way).trans (hw way)⟩

/-- Right answers about different ways make a right answer together. -/
theorem answers_mapM {α : Type} {l : List α} {f : α → Except WalkError (List (List Name))}
    {fails : α → Prop} {found : α → List Name → Prop} (h : ∀ x ∈ l, Answers (fails x) (found x) (f x))
    (hl : l.Pairwise fun x y => ∀ way, found x way → ¬ found y way) :
    Answers (∃ x ∈ l, fails x) (fun way => ∃ x ∈ l, found x way) ((l.mapM f).map List.flatten) := by
  induction l with
  | nil => exact ⟨by simp, List.nodup_nil, by simp⟩
  | cons x l ih =>
    have hx := h x List.mem_cons_self
    have ih := ih (fun y hy => h y (List.mem_cons_of_mem _ hy)) (List.pairwise_cons.1 hl).2
    rw [List.mapM_cons]
    cases hfx : f x with
    | error e =>
      rw [hfx] at hx
      exact ⟨x, List.mem_cons_self, hx⟩
    | ok ways =>
      rw [hfx] at hx
      cases hfl : l.mapM f with
      | error e =>
        rw [hfl] at ih
        obtain ⟨y, hy, hf⟩ := ih
        exact ⟨y, List.mem_cons_of_mem _ hy, hf⟩
      | ok rest =>
        rw [hfl] at ih
        obtain ⟨hno, hn, hw⟩ := hx
        obtain ⟨hno', hn', hw'⟩ := ih
        refine ⟨?_, ?_, ?_⟩
        · rintro ⟨y, hy, hf⟩
          rcases List.mem_cons.1 hy with rfl | hy
          · exact hno hf
          · exact hno' ⟨y, hy, hf⟩
        · refine List.nodup_append.2 ⟨hn, hn', ?_⟩
          rintro way hway _ hway' rfl
          obtain ⟨y, hy, hf⟩ := (hw' way).1 hway'
          exact (List.pairwise_cons.1 hl).1 y hy way ((hw way).1 hway) hf
        · intro way
          change way ∈ ways ++ rest.flatten ↔ _
          rw [List.mem_append, hw, hw']
          simp

section Visit

variable {way : List Name} {top : Walked} {stack : List Walked}

/-- The part of a walk that is about one entry of the directory on top of the stack. -/
def visit (fs : FileSystem) (current : Place) (way : List Name) (top : Walked) (stack : List Walked) :
    Name × Entry → Except WalkError (List (List Name))
  | (n, .file _) => .ok [way ++ [n]]
  | (_, .special) => .ok []
  | (n, .directory) =>
    fs.walkFrom current (way ++ [n]) ⟨top.place.child n, top.path.join ⟨n.bytes⟩⟩ (top :: stack)
  | (n, .link _) =>
    match fs.find current (top.path.join ⟨n.bytes⟩) true with
    | .error e => .error (.refused (top.path.join ⟨n.bytes⟩) e)
    | .ok (p, .directory) =>
      match (top :: stack).find? (·.place == p) with
      | some w => .error (.loop (top.path.join ⟨n.bytes⟩) w.path)
      | none => fs.walkFrom current (way ++ [n]) ⟨p, top.path.join ⟨n.bytes⟩⟩ (top :: stack)
    | .ok (_, .file _) => .ok [way ++ [n]]
    | .ok _ => .ok []

theorem walkFrom_eq : fs.walkFrom current way top stack =
    if pathBound ≤ top.path.bytes.length then .error (.refused top.path .nameTooLong)
    else ((fs.children top.place).mapM (visit fs current way top stack)).map List.flatten := by
  rw [walkFrom]
  split
  · rfl
  · have hm : ∀ (f : {x // x ∈ fs.children top.place} → Except WalkError (List (List Name))),
        (∀ x h, f ⟨x, h⟩ = visit fs current way top stack x) →
        (fs.children top.place).attach.mapM f =
          (fs.children top.place).mapM (visit fs current way top stack) := by
      intro f hf
      rw [List.mapM_subtype hf, List.unattach_attach]
    have he : ∀ r : Except WalkError (List (List (List Name))),
        (do let found ← r; pure found.flatten) = r.map List.flatten := by
      intro r
      cases r <;> rfl
    rw [← hm, ← he]
    rintro ⟨n, e⟩ -
    cases e with
    | file f => rfl
    | special => rfl
    | directory => rfl
    | link link =>
      dsimp only
      split
      · rename_i hf
        simp only [visit, hf]
        rfl
      · rename_i hf
        simp only [visit, hf]
        split
        · rename_i hs
          simp only [hs]
          rfl
        · rename_i hs
          simp only [hs]
      · rename_i hf
        simp only [visit, hf]
        rfl
      · rename_i hf
        simp only [visit, hf]
        rfl

/-- The ways that a walk should find below the directory on top of the stack. -/
def Finds (fs : FileSystem) (current : Place) (way : List Name) (top : Walked) (w : List Name) : Prop :=
  ∃ names q f, w = way ++ names ∧ Leads fs current top.place top.path names q (.file f)

/-- The ways that a walk should find through the entry of that name. -/
def FindsAt (fs : FileSystem) (current : Place) (way : List Name) (top : Walked) (n : Name)
    (w : List Name) : Prop :=
  ∃ names q f, w = way ++ n :: names ∧ Leads fs current top.place top.path (n :: names) q (.file f)

theorem answers_of_leaf {above : List Place}
    (ht : fs.target? current top.place (top.path.join ⟨n.bytes⟩) n = some (.ok (q, e)))
    (he : e ≠ .directory) :
    Answers (FailsAt fs current top.place above (top.path.join ⟨n.bytes⟩) n) (FindsAt fs current way top n)
      (.ok (match e with | .file _ => [way ++ [n]] | _ => [])) := by
  have hno : ¬ FailsAt fs current top.place above (top.path.join ⟨n.bytes⟩) n := by
    rintro (⟨cause, h⟩ | ⟨link, p, hl, hf, -⟩ | ⟨p, h, -⟩)
    · rw [ht] at h
      cases h
    · rw [target?_of_link hl, hf] at ht
      cases ht
      exact he rfl
    · rw [ht] at h
      cases h
      exact he rfl
  have hw : ∀ w, FindsAt fs current way top n w ↔ w = way ++ [n] ∧ ∃ f, e = .file f := by
    intro w
    constructor
    · rintro ⟨names, q', f, rfl, h⟩
      rcases leads_cons_iff.1 h with ⟨rfl, hlast⟩ | ⟨p, hdown, -⟩
      · rw [ht] at hlast
        cases hlast
        exact ⟨rfl, f, rfl⟩
      · rw [ht] at hdown
        cases hdown
        exact absurd rfl he
    · rintro ⟨rfl, f, rfl⟩
      exact ⟨[], q, f, rfl, .last ht⟩
  cases e with
  | directory => exact absurd rfl he
  | file f => exact ⟨hno, List.nodup_singleton _, fun w => by rw [hw]; simp⟩
  | link link => exact ⟨hno, List.nodup_nil, fun w => by rw [hw]; simp⟩
  | special => exact ⟨hno, List.nodup_nil, fun w => by rw [hw]; simp⟩

theorem answers_of_directory {r : Except WalkError (List (List Name))}
    (ht : fs.target? current top.place (top.path.join ⟨n.bytes⟩) n = some (.ok (p, .directory)))
    (hl : ∀ link, fs.get? (top.place.child n) = some (.link link) →
      p ∉ top.place :: stack.map Walked.place)
    (h : Answers (WalkFails fs current p ((top :: stack).map Walked.place) (top.path.join ⟨n.bytes⟩))
      (Finds fs current (way ++ [n]) ⟨p, top.path.join ⟨n.bytes⟩⟩) r) :
    Answers (FailsAt fs current top.place (stack.map Walked.place) (top.path.join ⟨n.bytes⟩) n)
      (FindsAt fs current way top n) r := by
  refine h.congr ?_ fun w => ?_
  · constructor
    · exact fun h => Or.inr (Or.inr ⟨p, ht, h⟩)
    · rintro (⟨cause, h⟩ | ⟨link, p', hlink, hf, hp⟩ | ⟨p', h, hb⟩)
      · rw [ht] at h
        cases h
      · rw [target?_of_link hlink, hf] at ht
        cases ht
        exact absurd hp (hl link hlink)
      · rw [ht] at h
        cases h
        exact hb
  · constructor
    · rintro ⟨names, q, f, rfl, h⟩
      exact ⟨names, q, f, by simp, .down ht h⟩
    · rintro ⟨names, q, f, rfl, h⟩
      rcases leads_cons_iff.1 h with ⟨rfl, hlast⟩ | ⟨p', hdown, hrest⟩
      · rw [ht] at hlast
        cases hlast
      · rw [ht] at hdown
        cases hdown
        exact ⟨names, q, f, by simp, hrest⟩

/-- An entry is visited rightly if the directories that it leads to are walked rightly. -/
theorem answers_visit (h : fs.get? (top.place.child n) = some e)
    (hwalk : ∀ p, (∀ link, e = .link link → p ∉ top.place :: stack.map Walked.place) →
      fs.target? current top.place (top.path.join ⟨n.bytes⟩) n = some (.ok (p, .directory)) →
      Answers (WalkFails fs current p ((top :: stack).map Walked.place) (top.path.join ⟨n.bytes⟩))
        (Finds fs current (way ++ [n]) ⟨p, top.path.join ⟨n.bytes⟩⟩)
        (fs.walkFrom current (way ++ [n]) ⟨p, top.path.join ⟨n.bytes⟩⟩ (top :: stack))) :
    Answers (FailsAt fs current top.place (stack.map Walked.place) (top.path.join ⟨n.bytes⟩) n)
      (FindsAt fs current way top n) (visit fs current way top stack (n, e)) := by
  cases e with
  | file f => exact answers_of_leaf (target?_of_entry h nofun) nofun
  | special => exact answers_of_leaf (target?_of_entry h nofun) nofun
  | directory =>
    have ht : fs.target? current top.place (top.path.join ⟨n.bytes⟩) n =
        some (.ok (top.place.child n, .directory)) := target?_of_entry h nofun
    refine answers_of_directory ht ?_ (hwalk _ nofun ht)
    intro link hlink
    rw [h] at hlink
    cases hlink
  | link link =>
    have ht : fs.target? current top.place (top.path.join ⟨n.bytes⟩) n =
        some (fs.find current (top.path.join ⟨n.bytes⟩) true) := target?_of_link h
    simp only [visit]
    cases hf : fs.find current (top.path.join ⟨n.bytes⟩) true with
    | error cause =>
      rw [hf] at ht
      exact Or.inl ⟨cause, ht⟩
    | ok found =>
      obtain ⟨p, e⟩ := found
      rw [hf] at ht
      cases e with
      | file f => exact answers_of_leaf ht nofun
      | special => exact answers_of_leaf ht nofun
      | link link' => exact answers_of_leaf ht nofun
      | directory =>
        dsimp only
        cases hs : (top :: stack).find? (·.place == p) with
        | some w =>
          have hw : w.place = p := by simpa using List.find?_some hs
          exact Or.inr (Or.inl ⟨link, p, h, hf, List.mem_map.2 ⟨w, List.mem_of_find?_eq_some hs, hw⟩⟩)
        | none =>
          have hp : p ∉ top.place :: stack.map Walked.place := by
            rw [← List.map_cons]
            intro hm
            obtain ⟨w, hw, hwp⟩ := List.mem_map.1 hm
            exact absurd (List.find?_eq_none.1 hs w hw) (by simpa using hwp)
          exact answers_of_directory ht (fun _ _ => hp) (hwalk p (fun _ _ => hp) ht)

/-- **A walk fails exactly where it meets a failure, and else finds exactly the names that lead to files,
each list of names once.** -/
theorem answers_walkFrom (way : List Name) (top : Walked) (stack : List Walked) :
    Answers (WalkFails fs current top.place (stack.map Walked.place) top.path)
      (Finds fs current way top) (fs.walkFrom current way top stack) := by
  induction way, top, stack using walkFrom.induct fs current with
  | case1 way top stack hlong _ _ =>
    rw [walkFrom_eq, if_pos hlong]
    exact .tooLong hlong
  | case2 way top stack hlong ihd ihl =>
    rw [walkFrom_eq, if_neg hlong]
    have hvisit : ∀ x ∈ fs.children top.place,
        Answers (FailsAt fs current top.place (stack.map Walked.place) (top.path.join ⟨x.1.bytes⟩) x.1)
          (FindsAt fs current way top x.1) (visit fs current way top stack x) := by
      rintro ⟨n, e⟩ hx
      have hget := mem_children_iff.1 hx
      refine answers_visit hget fun p hp ht => ?_
      cases e with
      | file f => rw [target?_of_entry hget nofun] at ht; cases ht
      | special => rw [target?_of_entry hget nofun] at ht; cases ht
      | directory =>
        rw [target?_of_entry hget nofun] at ht
        cases ht
        exact ihd n .directory hx
      | link link =>
        rw [target?_of_link hget, Option.some.injEq] at ht
        refine ihl n p ht (List.find?_eq_none.2 fun w hw hwp => ?_)
        exact hp link rfl (List.mem_map.2 ⟨w, hw, by simpa using hwp⟩)
    have hother : (fs.children top.place).Pairwise fun x y =>
        ∀ w, FindsAt fs current way top x.1 w → ¬ FindsAt fs current way top y.1 w := by
      refine (List.pairwise_map.1 (nodup_children fs top.place)).imp fun {x y} hne w hx hy => ?_
      obtain ⟨names, q, f, rfl, -⟩ := hx
      obtain ⟨names', q', f', hw, -⟩ := hy
      exact hne (List.cons.inj (List.append_cancel_left hw)).1
    refine (answers_mapM hvisit hother).congr ?_ fun w => ?_
    · rw [walkFails_iff]
      constructor
      · rintro ⟨x, -, h⟩
        exact Or.inr ⟨x.1, h⟩
      · rintro (h | ⟨n, h⟩)
        · exact absurd h hlong
        · obtain ⟨e, he⟩ := h.exists_entry
          exact ⟨(n, e), mem_children_iff.2 he, h⟩
    · constructor
      · rintro ⟨x, -, names, q, f, hw, h⟩
        exact ⟨x.1 :: names, q, f, hw, h⟩
      · rintro ⟨names, q, f, hw, h⟩
        cases names with
        | nil => exact absurd h not_leads_nil
        | cons n names =>
          obtain ⟨e, he⟩ := h.exists_entry
          exact ⟨(n, e), mem_children_iff.2 he, names, q, f, hw, h⟩

theorem not_walkFails_of_walkFrom {way : List Name} {top : Walked} {stack : List Walked} {ways : List (List Name)}
    (h : fs.walkFrom current way top stack = .ok ways) :
    ¬WalkFails fs current top.place (stack.map Walked.place) top.path := by
  have hans : Answers _ _ (fs.walkFrom current way top stack) := answers_walkFrom way top stack
  rw [h] at hans
  exact hans.1

end Visit

/-! ## A whole walk -/

/-- The names lead from the directory that `root` names to the entry `e` at the place `q`, links
followed. -/
def Reaches (fs : FileSystem) (current : Place) (root : Path) (names : List Name) (q : Place) (e : Entry) :
    Prop :=
  ∃ d, fs.find current root true = .ok (d, .directory) ∧ Leads fs current d root names q e

/-- A walk from `root` meets a failure: `root` itself leads nowhere, or the walk fails below it. -/
def MeetsFailure (fs : FileSystem) (current : Place) (root : Path) : Prop :=
  (∃ cause, fs.find current root true = .error cause) ∨
    ∃ d, fs.find current root true = .ok (d, .directory) ∧ WalkFails fs current d [] root

theorem Reaches.unique {root : Path} {names : List Name} {q' : Place} {e' : Entry}
    (h : fs.Reaches current root names q e) (h' : fs.Reaches current root names q' e') :
    q = q' ∧ e = e' := by
  obtain ⟨d, hd, hl⟩ := h
  obtain ⟨d', hd', hl'⟩ := h'
  rw [hd] at hd'
  cases hd'
  exact hl.unique hl'

theorem Reaches.ne_nil {root : Path} {names : List Name} (h : fs.Reaches current root names q e) :
    names ≠ [] := by
  rintro rfl
  obtain ⟨d, -, hl⟩ := h
  exact not_leads_nil hl

theorem walk_of_directory {root : Path} (h : fs.find current root true = .ok (d, .directory)) :
    fs.walk current root = fs.walkFrom current [] ⟨d, root⟩ [] := by
  rw [walk, h]

theorem walk_of_ne_directory {root : Path} (h : fs.find current root true = .ok (d, e))
    (he : e ≠ .directory) : fs.walk current root = .ok [] := by
  rw [walk, h]
  cases e with
  | directory => exact absurd rfl he
  | _ => rfl

/-- **A walk fails exactly where it meets a failure, and else finds exactly the names that lead to files.** -/
theorem answers_walk (fs : FileSystem) (current : Place) (root : Path) :
    Answers (fs.MeetsFailure current root)
      (fun names => ∃ q f, fs.Reaches current root names q (.file f)) (fs.walk current root) := by
  cases hf : fs.find current root true with
  | error cause =>
    rw [walk, hf]
    exact Or.inl ⟨cause, hf⟩
  | ok found =>
    obtain ⟨d, e⟩ := found
    by_cases he : e = .directory
    · subst he
      rw [walk_of_directory hf]
      refine (answers_walkFrom [] _ []).congr ?_ fun names => ?_
      · constructor
        · exact fun h => Or.inr ⟨d, hf, h⟩
        · rintro (⟨cause, h⟩ | ⟨d', h, hw⟩)
          · rw [hf] at h
            cases h
          · rw [hf] at h
            cases h
            exact hw
      · constructor
        · rintro ⟨_, q, f, rfl, h⟩
          exact ⟨q, f, d, hf, h⟩
        · rintro ⟨q, f, d', h, hl⟩
          rw [hf] at h
          cases h
          exact ⟨names, q, f, rfl, hl⟩
    · rw [walk_of_ne_directory hf he]
      have hno : ∀ d', fs.find current root true ≠ .ok (d', .directory) := by
        intro d' h
        rw [hf] at h
        cases h
        exact he rfl
      refine ⟨?_, List.nodup_nil, fun names => ?_⟩
      · rintro (⟨cause, h⟩ | ⟨d', h, -⟩)
        · rw [hf] at h
          cases h
        · exact hno d' h
      · constructor
        · intro h
          cases h
        · rintro ⟨q, f, d', h, -⟩
          exact absurd h (hno d')

/-! ## The order of a listing does not matter -/

section Congr

variable (h : ∀ p, fs'.get? p = fs.get? p)
include h

theorem isDirectoryAt_congr (p : Place) : fs'.isDirectoryAt p = fs.isDirectoryAt p := by
  rw [isDirectoryAt, isDirectoryAt, h]

theorem around_congr (names : List Name) : fs'.around names = fs.around names := by
  induction names with
  | nil => rfl
  | cons n names ih => rw [around, around, isDirectoryAt_congr h, ih]

theorem follow_congr (atEnd : Bool) (links : Nat) (p : Place) (moves : List Component) :
    fs'.follow atEnd links p moves = fs.follow atEnd links p moves := by
  fun_induction follow fs atEnd links p moves <;> rw [follow] <;>
    simp [isDirectoryAt_congr h, around_congr h, *]

theorem find_congr (current : Place) (path : Path) (atEnd : Bool) :
    fs'.find current path atEnd = fs.find current path atEnd := by
  simp only [find, follow_congr h]

theorem target?_congr (current d : Place) (path : Path) (n : Name) :
    fs'.target? current d path n = fs.target? current d path n := by
  simp only [target?, h, find_congr h]

theorem leads_congr {names : List Name} (hl : Leads fs current d path names q e) :
    Leads fs' current d path names q e := by
  induction hl with
  | last ht => exact .last (by rw [target?_congr h, ht])
  | down ht _ ih => exact .down (by rw [target?_congr h, ht]) ih

theorem walkFails_congr {above : List Place} (hw : WalkFails fs current d above path) :
    WalkFails fs' current d above path := by
  induction hw with
  | tooLong hlong => exact .tooLong hlong
  | broken n cause ht => exact .broken n cause (by rw [target?_congr h, ht])
  | loop n link p hg hf hp => exact .loop n link p (by rw [h, hg]) (by rw [find_congr h, hf]) hp
  | within n p ht _ ih => exact .within n p (by rw [target?_congr h, ht]) ih

theorem reaches_congr {root : Path} {names : List Name} (hr : fs.Reaches current root names q e) :
    fs'.Reaches current root names q e := by
  obtain ⟨d, hd, hl⟩ := hr
  exact ⟨d, by rw [find_congr h, hd], leads_congr h hl⟩

theorem meetsFailure_congr {root : Path} (hm : fs.MeetsFailure current root) :
    fs'.MeetsFailure current root := by
  rcases hm with ⟨cause, hf⟩ | ⟨d, hd, hw⟩
  · exact Or.inl ⟨cause, by rw [find_congr h, hf]⟩
  · exact Or.inr ⟨d, by rw [find_congr h, hd], walkFails_congr h hw⟩

end Congr

end GrammarBatch.FileSystem
