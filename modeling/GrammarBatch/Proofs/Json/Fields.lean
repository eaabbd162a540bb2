import GrammarBatch.Proofs.Json.Results
import GrammarBatch.Proofs.Json.Text

/-!
# Fields that come

* `Schema.noting`: the reader of a record that also notes which fields come;
* `Schema.follows_noting`: wherever the record is read, it is read with such notes;
* **`Schema.yields_noting`**: a field that does not come is as in the default.
-/

namespace GrammarBatch.Json

namespace Reader

variable {α β γ : Type} {r : Reader α} {noted : Reader (α × β)}

/-- Where the first reader gives a value, the second one gives it with a note, and leaves as much unread. -/
def Follows (r : Reader α) (noted : Reader (α × β)) : Prop :=
  ∀ s a s', r s = .ok a s' → ∃ b, noted s = .ok (a, b) s'

theorem follows_pure (a : α) (b : β) : Follows (pure a) (pure (a, b)) := by
  intro s a' s' h
  cases h
  exact ⟨b, rfl⟩

theorem follows_of_yields (h : Yields r fun _ => False) : Follows r noted := by
  intro s a s' ha
  exact (h s a s' ha).elim

/-- What comes first is the same for both. -/
theorem follows_bind {first : Reader γ} {f : γ → Reader α} {g : γ → Reader (α × β)}
    (h : ∀ c, Follows (f c) (g c)) : Follows (first >>= f) (first >>= g) := by
  intro s a s' ha
  obtain ⟨c, s₁, hc, ha⟩ := exists_of_bind_ok ha
  obtain ⟨b, hb⟩ := h c s₁ a s' ha
  exact ⟨b, (bind_ok g hc).trans hb⟩

theorem follows_located (h : Follows r noted) : Follows (located r) (located noted) := by
  intro s a s' ha
  rw [located] at ha
  split at ha
  · rename_i a₁ s₁ h₁
    cases ha
    obtain ⟨b, hb⟩ := h s a s' h₁
    exact ⟨b, by rw [located, hb]⟩
  · cases ha
  · cases ha

theorem follows_closing {close : Reader Unit} (h : Follows r noted) :
    Follows (closing r close) (closing noted close) := by
  intro s a s' ha
  rw [closing] at ha
  split at ha
  · rename_i a₁ s₁ h₁
    split at ha
    · rename_i h₂
      cases ha
      obtain ⟨b, hb⟩ := h s a s₁ h₁
      refine ⟨b, ?_⟩
      rw [closing, hb]
      dsimp only
      rw [h₂]
    · cases ha
  · split at ha <;> cases ha

theorem run_of_follows {text : List Char} {a : α} (h : Follows r noted) (hr : run r text = .ok a) :
    ∃ b, run noted text = .ok (a, b) := by
  rw [run] at hr
  split at hr
  · rename_i a₁ s' h₁
    cases hr
    obtain ⟨a₂, s₁, h₂, hrest⟩ := exists_of_bind_ok h₁
    obtain ⟨u, s₂, h₃, h₄⟩ := exists_of_bind_ok hrest
    cases h₄
    obtain ⟨b, hb⟩ := h text a s₁ h₂
    refine ⟨b, ?_⟩
    rw [run, bind_ok _ hb, bind_ok _ h₃]
    rfl
  · cases hr

end Reader

namespace Schema

open Reader

variable {σ α β : Type} {table pending : List (Member σ)} {x : σ} {keys : List String}

theorem follows_value {noted : Char → Option (Reader (α × β))} {wanted : String}
    {start : Char → Option (Reader α)} (hnone : ∀ c, start c = none → noted c = none)
    (h : ∀ c r, start c = some r → ∃ r', noted c = some r' ∧ Follows r r') :
    Follows (value wanted start) (value wanted noted) := by
  refine follows_located (follows_bind fun c => ?_)
  cases c with
  | none => exact follows_of_yields (yields_failPast _ _)
  | some c =>
    dsimp only
    cases hs : start c with
    | none =>
      rw [hnone c hs]
      exact follows_of_yields (yields_refuse wanted)
    | some r =>
      obtain ⟨r', hr', hf⟩ := h c r hs
      rw [hr']
      exact hf

/-! ## Records with notes -/

/-- The field, which is noted when it comes. -/
def Member.noted (f : Member σ) : Member (σ × List String) :=
  ⟨f.key, do
    let put ← f.read
    return fun x => (put x.1, f.key :: x.2)⟩

/-- Reads a record, and the names of the fields that come. -/
def noting (name : String) (table : List (Member σ)) (default : σ) : Reader (σ × List String) :=
  record name (table.map Member.noted) (default, [])

/-- After a field is read, the rest is read from what it puts into the record. -/
theorem follows_read {f : Member σ} {k : σ → Reader α} {k' : σ × List String → Reader (α × β)}
    (h : ∀ x keys, Follows (k x) (k' (x, keys))) (x : σ) (keys : List String) :
    Follows (f.read >>= fun put => k (put x)) (f.noted.read >>= fun put => k' (put (x, keys))) := by
  rw [Member.noted]
  simp only [bind_assoc, pure_bind]
  exact follows_bind fun put => h (put x) (f.key :: keys)

theorem follows_inOrder (first : Bool) (table : List (Member σ)) (x : σ) (keys : List String) :
    Follows (inOrder first table x) (inOrder first (table.map Member.noted) (x, keys)) := by
  induction table generalizing first x keys with
  | nil => exact follows_pure x keys
  | cons f table ih =>
    rw [List.map_cons, inOrder, inOrder]
    refine follows_bind fun more => ?_
    split
    · exact follows_read (ih false) x keys
    · exact follows_pure x keys

theorem find?_noted (pending : List (Member σ)) (key : String) :
    (pending.map Member.noted).find? (·.key == key) = (pending.find? (·.key == key)).map Member.noted := by
  rw [List.find?_map]
  rfl

theorem eraseP_noted (pending : List (Member σ)) (key : String) :
    (pending.map Member.noted).eraseP (·.key == key) = (pending.eraseP (·.key == key)).map Member.noted := by
  rw [List.eraseP_map]
  rfl

theorem follows_members (first : Bool) (pending : List (Member σ)) (x : σ) (keys : List String) :
    Follows (members table first pending x)
      (members (table.map Member.noted) first (pending.map Member.noted) (x, keys)) := by
  induction hn : pending.length using Nat.strongRecOn generalizing first pending x keys with
  | ind n ih =>
    rw [members, members]
    refine follows_bind fun more => ?_
    split
    · refine follows_bind fun _ => follows_bind fun key => ?_
      split
      · rename_i f hfind
        have hm := List.mem_of_find?_eq_some hfind
        have hkey : (f.key == key) = true := List.find?_some (p := fun f : Member σ => f.key == key) hfind
        have hlength := List.length_eraseP_of_mem (p := fun f : Member σ => f.key == key) hm hkey
        have hpos := List.length_pos_of_mem hm
        split
        · rename_i f' hfind'
          rw [find?_noted, hfind] at hfind'
          obtain rfl := Option.some.inj hfind'
          rw [eraseP_noted]
          refine follows_bind fun _ => follows_read (fun x keys => ?_) x keys
          refine ih _ ?_ false _ x keys rfl
          omega
        · rename_i hnone
          rw [find?_noted, hfind] at hnone
          cases hnone
      · split
        · exact follows_of_yields (yields_fail _)
        · exact follows_of_yields (yields_fail _)
    · exact follows_pure x keys

theorem follows_noting (name : String) (table : List (Member σ)) (default : σ) :
    Follows (record name table default) (noting name table default) := by
  refine follows_value (fun c hc => ?_) (fun c r hr => ?_)
  · split at hc
    · cases hc
    split at hc
    · cases hc
    · rw [if_neg ‹_›, if_neg ‹_›]
  · split at hr
    · cases hr
      rename_i hlist
      refine ⟨_, if_pos hlist, ?_⟩
      exact follows_bind fun _ => follows_closing (follows_inOrder true table default [])
    split at hr
    · cases hr
      rename_i hlist hobject
      refine ⟨_, (if_neg hlist).trans (if_pos hobject), ?_⟩
      exact follows_bind fun _ => follows_closing (follows_members true table default [])
    · cases hr

/-- **What only the field of that name would change is as in the default, if that field does not come.** -/
theorem yields_noting {name key : String} {default : σ} {get : σ → β}
    (h : ∀ f ∈ table, f.key ≠ key → Keeps (fun x => get x = get default) f) :
    Yields (noting name table default) fun x => key ∉ x.2 → get x.1 = get default := by
  refine yields_record (fun f' hf' => ?_) fun _ => rfl
  obtain ⟨f, hf, rfl⟩ := List.mem_map.1 hf'
  by_cases hkey : f.key = key
  · refine yields_then fun put => yields_pure fun x hx hcome => ?_
    exact absurd (hkey ▸ List.mem_cons_self) hcome
  · refine yields_bind (h f hf hkey) fun put hput => yields_pure fun x hx hcome => ?_
    exact hput x.1 (hx fun hmem => hcome (List.mem_cons_of_mem f.key hmem))

end Schema

end GrammarBatch.Json
