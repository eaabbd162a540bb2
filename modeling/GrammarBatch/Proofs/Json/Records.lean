import GrammarBatch.Proofs.Json.Decoded
import Mathlib.Data.List.Nodup

/-!
# Records as decoders

* `Schema.Decoded`: a member of a record, with what its reader makes of a tree;
* `Schema.fill`, `Schema.fillInOrder`, `Tree.record?`: a record from the members of an object or the elements of a
  list;
* **`Schema.decodes_record`**: that is what the reader of a record gives;
* **`Schema.fill_eq_some_iff`**: an object is a record if it names fields of the record only, none of them twice, and
  gives each a value of its form.
-/

namespace GrammarBatch.Json

open Reader

namespace Schema

variable {α σ : Type}

/-- A member of a record, with what its reader makes of a tree. -/
structure Decoded (σ : Type) extends Member σ where
  decode : Tree → Option (σ → σ)
  decodes : Decodes read decode

/-- The field that `read` reads and `put` puts into the record. -/
def Decoded.of {read : Reader α} {decode : Tree → Option α} (key : String) (h : Decodes read decode)
    (put : α → σ → σ) : Decoded σ :=
  ⟨Member.of key read put, fun t => (decode t).map put, h.map put⟩

/-- The record after the members of an object. `pending` are the fields that have not come yet. -/
def fill (pending : List (Decoded σ)) (x : σ) : List (String × Tree) → Option σ
  | [] => some x
  | (key, t) :: ms =>
    match pending.find? (·.key == key) with
    | some f => (f.decode t).bind fun put => fill (pending.eraseP (·.key == key)) (put x) ms
    | none => none

/-- The record after the elements of a list, of which there may be less than fields but not more. -/
def fillInOrder : List (Decoded σ) → σ → List Tree → Option σ
  | _, x, [] => some x
  | [], _, _ :: _ => none
  | f :: fields, x, t :: items => (f.decode t).bind fun put => fillInOrder fields (put x) items

end Schema

/-- A record with the given fields. -/
def Tree.record? {σ : Type} (fields : List (Schema.Decoded σ)) (default : σ) : Tree → Option σ
  | .object ms => Schema.fill fields default ms
  | .list items => Schema.fillInOrder fields default items
  | _ => none

namespace Schema

variable {σ : Type} {table : List (Member σ)} {fields pending : List (Decoded σ)} {x y : σ} {first : Bool}
  {cs : List Char} {key : String} {t : Tree} {ms : List (String × Tree)} {items : List Tree}

/-! ## Objects -/

theorem given_hasMember_nil (h : Row (Pair Spells) first cs []) (rest : List Char) :
    given (hasMember first) (cs ++ '}' :: rest) = some (false, '}' :: rest) := by
  cases h with
  | nil hws =>
    rw [hasMember, given_bind, given_next hws rfl]
    rfl

theorem given_hasMember_cons (h : Row (Pair Spells) first cs ((key, t) :: ms)) (rest : List Char) :
    ∃ member more, Pair Spells ('"' :: member) (key, t) ∧ Row (Pair Spells) false more ms ∧
      given (hasMember first) (cs ++ '}' :: rest) = some (true, '"' :: (member ++ (more ++ '}' :: rest))) := by
  cases h with
  | first hws hpair hmore =>
    obtain ⟨hname, hws₁, hws₂, ht⟩ := hpair
    refine ⟨_, _, ⟨hname, hws₁, hws₂, ht⟩, hmore, ?_⟩
    rw [List.append_assoc, List.append_assoc, List.cons_append, hasMember, given_bind, given_next hws rfl]
    rfl
  | next hws hws' hpair hmore =>
    obtain ⟨hname, hws₁, hws₂, ht⟩ := hpair
    refine ⟨_, _, ⟨hname, hws₁, hws₂, ht⟩, hmore, ?_⟩
    rw [List.append_assoc, List.cons_append, List.append_assoc, List.append_assoc, List.cons_append, hasMember,
      given_bind, given_next hws rfl]
    change given (skip >>= fun _ => next >>= _) _ = _
    rw [given_bind, given_skip, Option.bind_some, List.tail_cons, given_bind, given_next hws' rfl]
    rfl

/-- The members of an object fill the record one after another. -/
theorem given_members (h : Row (Pair Spells) first cs ms) (rest : List Char) :
    given (members table first (pending.map (·.toMember)) x) (cs ++ '}' :: rest) =
      (fill pending x ms).map (·, '}' :: rest) := by
  induction ms generalizing first cs pending x with
  | nil =>
    rw [members, given_bind, given_hasMember_nil h]
    rfl
  | cons m ms ih =>
    obtain ⟨key, t⟩ := m
    obtain ⟨member, more, hpair, hmore, hhas⟩ := given_hasMember_cons h rest
    obtain @⟨name, ws, ws', value, _, _, hname, hws, hws', ht⟩ := hpair
    have hbody : given Text.body (name ++ '"' :: (ws ++ ':' :: (ws' ++ (value ++ (more ++ '}' :: rest))))) =
        some (key, _) := given_of_ok (Text.body_spells hname _)
    have hfind : (pending.map (·.toMember)).find? (·.key == key) =
        (pending.find? (·.key == key)).map (·.toMember) := List.find?_map
    have herase : (pending.map (·.toMember)).eraseP (·.key == key) =
        (pending.eraseP (·.key == key)).map (·.toMember) := List.eraseP_map
    rw [members, given_bind, hhas, Option.bind_some, if_pos rfl, given_bind, given_skip, Option.bind_some,
      List.tail_cons, given_bind]
    simp only [List.append_assoc, List.cons_append]
    rw [hbody, Option.bind_some, fill]
    simp only [herase]
    -- the reader keeps the equation of its search, so the search is replaced as a whole
    generalize (pending.map (·.toMember)).find? (·.key == key) = found at hfind
    subst hfind
    cases pending.find? (·.key == key) with
    | none =>
      dsimp only [Option.map_none]
      split <;> rfl
    | some f =>
      have hvalue := f.decodes ws' value _ t hws' ht (hmore.ends (Or.inr rfl) rest)
      dsimp only [Option.map_some]
      rw [given_bind, given_colon hws, Option.bind_some, given_bind, hvalue]
      cases f.decode t with
      | none => rfl
      | some put => exact ih hmore

/-! ## Lists -/

theorem given_closeList {ws : List Char} (hws : Blank ws) (rest : List Char) :
    given closeList (ws ++ ']' :: rest) = some ((), rest) := by
  rw [closeList, given_bind, given_next hws rfl]
  rfl

theorem given_closeList_eq_none {ws : List Char} {c : Char} (hws : Blank ws) (hblank : isBlank c = false)
    (hend : c ≠ ']') (s : List Char) : given closeList (ws ++ c :: s) = none := by
  rw [closeList, given_bind, given_next hws hblank, Option.bind_some]
  dsimp only
  rw [if_neg hend]
  split
  · rw [given_bind, given_skip, Option.bind_some, given_bind]
    refine Option.bind_eq_none_iff.2 fun next _ => ?_
    split <;> rfl
  · rfl

theorem given_closeList_cons (h : Row Spells first cs (t :: items)) (rest : List Char) :
    given closeList (cs ++ ']' :: rest) = none := by
  cases h with
  | first hws hitem hmore =>
    obtain ⟨c, item, rfl, hblank, -, hend, -⟩ := hitem.exists_cons
    rw [List.append_assoc, List.append_assoc, List.cons_append]
    exact given_closeList_eq_none hws hblank hend _
  | next hws hws' hitem hmore =>
    rw [List.append_assoc, List.cons_append]
    exact given_closeList_eq_none hws rfl (by decide) _

/-- The elements of a list fill the record in the order of its fields, and must not be too many. -/
theorem given_inOrder (h : Row Spells first cs items) (rest : List Char) :
    given (closing (inOrder first (fields.map (·.toMember)) x) closeList) (cs ++ ']' :: rest) =
      (fillInOrder fields x items).map (·, rest) := by
  have hclose : given closeList (']' :: rest) = some ((), rest) := rfl
  rw [given_closing]
  induction fields generalizing first cs items x with
  | nil =>
    rw [List.map_nil, inOrder, given_pure, Option.bind_some]
    cases items with
    | nil =>
      cases h with
      | nil hws =>
        rw [given_closeList hws]
        rfl
    | cons t items =>
      rw [given_closeList_cons h]
      rfl
  | cons f fields ih =>
    cases items with
    | nil =>
      rw [List.map_cons, inOrder, given_bind, given_hasElement_nil h, Option.bind_some,
        if_neg Bool.false_ne_true, given_pure, Option.bind_some, hclose]
      rfl
    | cons t items =>
      obtain ⟨item, more, hitem, hmore, hhas⟩ := given_hasElement_cons h rest
      have hvalue := f.decodes [] item _ t blank_nil hitem (hmore.ends (Or.inl rfl) rest)
      rw [List.nil_append] at hvalue
      rw [List.map_cons, inOrder, given_bind, hhas, Option.bind_some, if_pos rfl, given_bind, hvalue, fillInOrder]
      cases f.decode t with
      | none => rfl
      | some put => exact ih hmore

/-- **A record is decoded from an object by the names of its members, and from a list by the order of its
elements.** -/
theorem decodes_record {name : String} (fields : List (Decoded σ)) (default : σ) :
    Decodes (record name (fields.map (·.toMember)) default) (Tree.record? fields default) := by
  refine decodes_value fun c cs rest t hcs _ => ?_
  cases hcs with
  | list hrow =>
    rw [List.append_assoc, List.singleton_append, if_pos rfl, Option.bind_some, given_bind, given_skip,
      Option.bind_some, List.tail_cons]
    exact given_inOrder hrow rest
  | object hrow =>
    have hclose : given closeObject ('}' :: rest) = some ((), rest) := rfl
    rw [List.append_assoc, List.singleton_append, if_neg (by decide), if_pos rfl, Option.bind_some, given_bind,
      given_skip, Option.bind_some, List.tail_cons, given_closing, given_members hrow rest]
    change _ = (fill fields default _).map (·, rest)
    cases fill fields default _ with
    | none => rfl
    | some x =>
      rw [Option.map_some, Option.bind_some, hclose]
      rfl
  | number h =>
    rw [if_neg (h.head_ne rfl (by decide)), if_neg (h.head_ne rfl (by decide))]
    rfl
  | _ => rfl

/-! ## Members that lead from one record to another -/

/-- The members, no two of the same name, replace one field after another, which leads from one record to another.
`sets` says how a single one changes it. -/
inductive Replaces (sets : String → Tree → (σ → σ) → Prop) : σ → List (String × Tree) → σ → Prop where
  | nil {x : σ} : Replaces sets x [] x
  | cons {key : String} {t : Tree} {put : σ → σ} {ms : List (String × Tree)} {x y : σ} (hnew : key ∉ ms.map (·.1))
    (h : sets key t put) (hrest : Replaces sets (put x) ms y) : Replaces sets x ((key, t) :: ms) y

variable {sets sets' : String → Tree → (σ → σ) → Prop}

theorem replaces_cons_iff : Replaces sets x ((key, t) :: ms) y ↔
    key ∉ ms.map (·.1) ∧ ∃ put, sets key t put ∧ Replaces sets (put x) ms y := by
  constructor
  · intro h
    cases h with
    | cons hnew h hrest => exact ⟨hnew, _, h, hrest⟩
  · rintro ⟨hnew, put, h, hrest⟩
    exact .cons hnew h hrest

theorem exists_replaces (hdistinct : (ms.map (·.1)).Nodup) (h : ∀ m ∈ ms, ∃ put, sets m.1 m.2 put) (x : σ) :
    ∃ y, Replaces sets x ms y := by
  induction ms generalizing x with
  | nil => exact ⟨x, .nil⟩
  | cons m ms ih =>
    obtain ⟨key, t⟩ := m
    obtain ⟨hnew, hdistinct⟩ := List.nodup_cons.1 hdistinct
    obtain ⟨put, hput⟩ := h (key, t) List.mem_cons_self
    obtain ⟨y, hy⟩ := ih hdistinct (fun m hm => h m (List.mem_cons_of_mem _ hm)) (put x)
    exact ⟨y, .cons hnew hput hy⟩

theorem Replaces.mono (h : Replaces sets x ms y) (hsets : ∀ key t put, sets key t put → sets' key t put) :
    Replaces sets' x ms y := by
  induction h with
  | nil => exact .nil
  | cons hnew h _ ih => exact .cons hnew (hsets _ _ _ h) ih

theorem Replaces.nodup (h : Replaces sets x ms y) : (ms.map (·.1)).Nodup := by
  induction h with
  | nil => exact .nil
  | cons hnew _ _ ih => exact ih.cons hnew

theorem Replaces.exists_sets (h : Replaces sets x ms y) (hm : (key, t) ∈ ms) : ∃ put, sets key t put := by
  induction h with
  | nil => cases hm
  | cons _ h _ ih =>
    rcases List.mem_cons.1 hm with heq | hm
    · cases heq
      exact ⟨_, h⟩
    · exact ih hm

theorem replaces_ne_iff {name : String} : Replaces (fun key t put => key ≠ name ∧ sets key t put) x ms y ↔
    name ∉ ms.map (·.1) ∧ Replaces sets x ms y := by
  induction ms generalizing x with
  | nil =>
    constructor
    · intro h
      cases h
      exact ⟨by simp, .nil⟩
    · rintro ⟨-, h⟩
      cases h
      exact .nil
  | cons m ms ih =>
    obtain ⟨key, t⟩ := m
    simp only [replaces_cons_iff, ih, List.map_cons, List.mem_cons, not_or]
    constructor
    · rintro ⟨hnew, put, ⟨hne, h⟩, hname, hrest⟩
      exact ⟨⟨Ne.symm hne, hname⟩, hnew, put, h, hrest⟩
    · rintro ⟨⟨hne, hname⟩, hnew, put, h, hrest⟩
      exact ⟨hnew, put, ⟨Ne.symm hne, h⟩, hname, hrest⟩

/-- **Where members of different names commute, their order does not matter.** -/
theorem Replaces.perm {ms' : List (String × Tree)} (h : Replaces sets x ms y) (hperm : ms.Perm ms')
    (hcomm : ∀ key t put key' t' put', key ≠ key' → sets key t put → sets key' t' put' →
      ∀ x, put (put' x) = put' (put x)) : Replaces sets x ms' y := by
  induction hperm generalizing x with
  | nil => exact h
  | cons m hperm ih =>
    cases h with
    | cons hnew h hrest =>
      refine .cons (fun hm => hnew ?_) h (ih hrest)
      exact (hperm.map _).mem_iff.2 hm
  | swap m m' ms =>
    cases h with
    | cons hnew h hrest =>
      cases hrest with
      | cons hnew' h' hrest =>
        rw [List.map_cons, List.mem_cons, not_or] at hnew
        refine .cons ?_ h' (.cons hnew.2 h ?_)
        · rw [List.map_cons, List.mem_cons, not_or]
          exact ⟨Ne.symm hnew.1, hnew'⟩
        · rwa [hcomm _ _ _ _ _ _ hnew.1 h h']
  | trans _ _ ih ih' => exact ih' (ih h)

/-- A value may be exchanged for another one that sets the field to the same. -/
theorem Replaces.exchange {before after : List (String × Tree)} {t' : Tree}
    (h : Replaces sets x (before ++ (key, t) :: after) y) (hsets : ∀ put, sets key t put → sets key t' put) :
    Replaces sets x (before ++ (key, t') :: after) y := by
  induction before generalizing x with
  | nil =>
    cases h with
    | cons hnew h hrest => exact .cons hnew (hsets _ h) hrest
  | cons m before ih =>
    cases h with
    | cons hnew h hrest => exact .cons (by simpa using hnew) h (ih hrest)

/-! ## What fills a record -/

/-- The tree gives a field of that name the value that `put` puts into the record. -/
def Puts (fields : List (Decoded σ)) (key : String) (t : Tree) (put : σ → σ) : Prop :=
  ∃ f ∈ fields, f.key = key ∧ f.decode t = some put

theorem find?_key_eq_some_iff {f : Decoded σ} (hkeys : (pending.map (·.key)).Nodup) :
    pending.find? (·.key == key) = some f ↔ f ∈ pending ∧ f.key = key := by
  constructor
  · intro h
    exact ⟨List.mem_of_find?_eq_some h, by simpa using List.find?_some h⟩
  · rintro ⟨hf, rfl⟩
    cases h : pending.find? (·.key == f.key) with
    | none => exact absurd (List.find?_eq_none.1 h f hf) (by simp)
    | some g =>
      have hg : g.key = f.key := by simpa using List.find?_some h
      rw [List.inj_on_of_nodup_map hkeys (List.mem_of_find?_eq_some h) hf hg]

theorem puts_iff {put : σ → σ} (hkeys : (pending.map (·.key)).Nodup) : Puts pending key t put ↔
    ∃ f, pending.find? (·.key == key) = some f ∧ f.decode t = some put := by
  simp only [Puts, find?_key_eq_some_iff hkeys, and_assoc]

theorem puts_eraseP (hkeys : (pending.map (·.key)).Nodup) (name : String) :
    Puts (pending.eraseP (·.key == name)) = fun key t put => key ≠ name ∧ Puts pending key t put := by
  funext key t put
  refine propext ⟨?_, ?_⟩
  · rintro ⟨f, hf, rfl, hput⟩
    have herase : (pending.eraseP (·.key == name)).map (·.key) = (pending.map (·.key)).erase name := by
      rw [List.erase_eq_eraseP', List.eraseP_map]
      rfl
    have hkey : f.key ∈ (pending.map (·.key)).erase name := by
      rw [← herase]
      exact List.mem_map_of_mem hf
    exact ⟨(hkeys.mem_erase_iff.1 hkey).1, f, List.mem_of_mem_eraseP hf, rfl, hput⟩
  · rintro ⟨hne, f, hf, rfl, hput⟩
    exact ⟨f, (List.mem_eraseP_of_neg (by simpa using hne)).2 hf, rfl, hput⟩

/-- **The members of an object fill a record if no two of them have the same name and each gives the field of its
name a value.** -/
theorem fill_eq_some_iff (hkeys : (pending.map (·.key)).Nodup) :
    fill pending x ms = some y ↔ Replaces (Puts pending) x ms y := by
  induction ms generalizing pending x with
  | nil =>
    constructor
    · intro h
      cases h
      exact .nil
    · intro h
      cases h
      rfl
  | cons m ms ih =>
    obtain ⟨key, t⟩ := m
    have hrest : ((pending.eraseP (·.key == key)).map (·.key)).Nodup :=
      hkeys.sublist (List.eraseP_sublist.map _)
    have hone : fill pending x ((key, t) :: ms) = some y ↔
        ∃ put, Puts pending key t put ∧ fill (pending.eraseP (·.key == key)) (put x) ms = some y := by
      simp only [puts_iff hkeys, fill]
      cases pending.find? (·.key == key) with
      | none => simp
      | some f => simp [Option.bind_eq_some_iff]
    rw [hone, replaces_cons_iff]
    simp only [ih hrest, puts_eraseP hkeys, replaces_ne_iff]
    constructor
    · rintro ⟨put, hput, hnew, hrest⟩
      exact ⟨hnew, put, hput, hrest⟩
    · rintro ⟨hnew, put, hput, hrest⟩
      exact ⟨put, hput, hnew, hrest⟩

/-- Some member has a name that is not one of the given ones, or the name of another member. -/
def Misnamed (own : List String) (ms : List (String × Tree)) : Prop :=
  (∃ key ∈ ms.map (·.1), key ∉ own) ∨ ¬ (ms.map (·.1)).Nodup

theorem fill_eq_none_of_misnamed (hkeys : (fields.map (·.key)).Nodup) (h : Misnamed (fields.map (·.key)) ms) :
    fill fields x ms = none := by
  refine Option.eq_none_iff_forall_ne_some.2 fun y hy => ?_
  have hreplaces := (fill_eq_some_iff hkeys).1 hy
  rcases h with ⟨key, hkey, hother⟩ | hrepeated
  · obtain ⟨⟨_, t⟩, hm, rfl⟩ := List.mem_map.1 hkey
    obtain ⟨put, f, hf, hfkey, -⟩ := hreplaces.exists_sets hm
    exact hother (by rw [← hfkey]; exact List.mem_map_of_mem hf)
  · exact hrepeated hreplaces.nodup

theorem fill_eq_none_of_value {f : Decoded σ} (hkeys : (fields.map (·.key)).Nodup) (hm : (key, t) ∈ ms)
    (hf : fields.find? (·.key == key) = some f) (hnone : f.decode t = none) : fill fields x ms = none := by
  refine Option.eq_none_iff_forall_ne_some.2 fun y hy => ?_
  obtain ⟨put, hput⟩ := ((fill_eq_some_iff hkeys).1 hy).exists_sets hm
  obtain ⟨g, hg, hdecode⟩ := (puts_iff hkeys).1 hput
  obtain rfl := Option.some.inj (hf.symm.trans hg)
  rw [hnone] at hdecode
  cases hdecode

end Schema

end GrammarBatch.Json
