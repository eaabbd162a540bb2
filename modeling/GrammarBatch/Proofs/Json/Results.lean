import GrammarBatch.Json.Schema
import Mathlib.Data.List.Basic

/-!
# What readers give

* `Reader.Yields`: whatever a reader gives has a property;
* `Schema.yields_textOf`, `Schema.yields_optional`: the property is that of the meanings of texts;
* **`Schema.yields_record`**: a property that the default has and that each field keeps is one of every record.
-/

namespace GrammarBatch.Json

namespace Reader

variable {α β : Type} {r : Reader α} {P : α → Prop} {Q : β → Prop}

/-- Whatever the reader gives has the property. -/
def Yields (r : Reader α) (P : α → Prop) : Prop := ∀ s a s', r s = .ok a s' → P a

theorem yields_any (r : Reader α) : Yields r fun _ => True := fun _ _ _ _ => trivial

theorem yields_pure {a : α} (h : P a) : Yields (pure a) P := by
  intro s b s' hb
  cases hb
  exact h

theorem yields_fail (p : Problem) : Yields (fail p : Reader α) P := nofun

theorem yields_failPast (count : Nat) (p : Problem) : Yields (failPast count p : Reader α) P := nofun

/-- A reader that gives a value in two steps gives one in each of them. -/
theorem exists_of_bind_ok {f : α → Reader β} {s s' : List Char} {b : β} (h : (r >>= f) s = .ok b s') :
    ∃ a s₁, r s = .ok a s₁ ∧ f a s₁ = .ok b s' := by
  change EStateM.bind r f s = _ at h
  rw [EStateM.bind] at h
  split at h
  · exact ⟨_, _, ‹_›, h⟩
  · cases h

theorem yields_bind {f : α → Reader β} (h : Yields r P) (hf : ∀ a, P a → Yields (f a) Q) :
    Yields (r >>= f) Q := by
  intro s b s' hb
  obtain ⟨a, s₁, ha, hb⟩ := exists_of_bind_ok hb
  exact hf a (h s a s₁ ha) s₁ b s' hb

/-- What comes first does not matter for what is given in the end. -/
theorem yields_then {f : α → Reader β} (hf : ∀ a, Yields (f a) Q) : Yields (r >>= f) Q :=
  yields_bind (yields_any r) fun a _ => hf a

theorem yields_located (h : Yields r P) : Yields (located r) P := by
  intro s a s' ha
  rw [located] at ha
  split at ha
  · rename_i b s₁ hb
    cases ha
    exact h s _ _ hb
  · cases ha
  · cases ha

theorem yields_closing {close : Reader Unit} (h : Yields r P) : Yields (closing r close) P := by
  intro s a s' ha
  rw [closing] at ha
  split at ha
  · rename_i b s₁ hb
    split at ha
    · cases ha
      exact h s _ _ hb
    · cases ha
  · split at ha <;> cases ha

theorem of_run {text : List Char} {a : α} (hr : Yields r P) (h : run r text = .ok a) : P a := by
  rw [run] at h
  split at h
  · rename_i b s hb
    cases h
    have hall : Yields (r >>= fun a => finish >>= fun _ => pure a) P :=
      yields_bind hr fun a ha => yields_then fun _ => yields_pure ha
    exact hall _ _ _ hb
  · cases h

end Reader

namespace Schema

open Reader

variable {α σ : Type} {r : Reader α} {P : α → Prop} {Q : σ → Prop} {table pending : List (Member σ)} {x : σ}

theorem yields_refuse (wanted : String) : Yields (refuse wanted : Reader α) P := by
  refine yields_located (yields_then fun c => ?_)
  split
  · exact yields_then fun _ => yields_fail _
  · exact yields_then fun _ => yields_fail _
  · exact yields_then fun _ => yields_fail _
  · exact yields_then fun _ => yields_then fun _ => yields_fail _
  · exact yields_fail _
  · exact yields_fail _
  · split
    · exact yields_then fun _ => yields_fail _
    · exact yields_failPast _ _
  · exact yields_failPast _ _

theorem yields_value {wanted : String} {start : Char → Option (Reader α)}
    (h : ∀ c r, start c = some r → Yields r P) : Yields (value wanted start) P := by
  refine yields_located (yields_then fun c => ?_)
  split
  · exact yields_failPast _ _
  · split
    · exact h _ _ ‹_›
    · exact yields_refuse wanted

theorem yields_textOf {wanted : String} {meaning : String → Except Problem α}
    (h : ∀ t a, meaning t = .ok a → P a) : Yields (textOf wanted meaning) P := by
  refine yields_value fun c r hr => ?_
  split at hr
  · cases hr
    refine yields_then fun _ => yields_then fun t => ?_
    split
    · exact yields_pure (h t _ ‹_›)
    · exact yields_fail _
  · cases hr

theorem yields_optional (h : Yields r P) : Yields (optional r) fun o => ∀ a ∈ o, P a := by
  refine yields_then fun c => ?_
  split
  · exact yields_then fun _ => yields_pure nofun
  · refine yields_bind h fun a ha => yields_pure fun b hb => ?_
    cases hb
    exact ha

/-- The field that is read keeps the property of a record. -/
def Keeps (Q : σ → Prop) (f : Member σ) : Prop := Yields f.read fun put => ∀ x, Q x → Q (put x)

theorem keeps_of {key : String} {put : α → σ → σ} (hr : Yields r P) (h : ∀ a x, P a → Q x → Q (put a x)) :
    Keeps Q (Member.of key r put) :=
  yields_bind hr fun a ha => yields_pure fun x hx => h a x ha hx

theorem yields_inOrder {first : Bool} (hf : ∀ f ∈ table, Keeps Q f) (hx : Q x) :
    Yields (inOrder first table x) Q := by
  induction table generalizing first x with
  | nil => exact yields_pure hx
  | cons f table ih =>
    refine yields_then fun more => ?_
    split
    · refine yields_bind (hf f List.mem_cons_self) fun put hput => ?_
      exact ih (fun g hg => hf g (List.mem_cons_of_mem f hg)) (hput x hx)
    · exact yields_pure hx

theorem yields_members {first : Bool} (hf : ∀ f ∈ pending, Keeps Q f) (hx : Q x) :
    Yields (members table first pending x) Q := by
  induction hn : pending.length using Nat.strongRecOn generalizing first pending x with
  | ind n ih =>
    rw [members]
    refine yields_then fun more => ?_
    split
    · refine yields_then fun _ => yields_then fun key => ?_
      split
      · rename_i f hfind
        have hm := List.mem_of_find?_eq_some hfind
        have hkey : (f.key == key) = true := List.find?_some (p := fun f : Member σ => f.key == key) hfind
        have hlength := List.length_eraseP_of_mem (p := fun f : Member σ => f.key == key) hm hkey
        have hpos := List.length_pos_of_mem hm
        refine yields_then fun _ => yields_bind (hf f hm) fun put hput => ?_
        refine ih _ ?_ (fun g hg => hf g (List.mem_of_mem_eraseP hg)) (hput x hx) rfl
        omega
      · split
        · exact yields_fail _
        · exact yields_fail _
    · exact yields_pure hx

theorem yields_record {name : String} {default : σ} (hf : ∀ f ∈ table, Keeps Q f) (h : Q default) :
    Yields (record name table default) Q := by
  refine yields_value fun c r hr => ?_
  split at hr
  · cases hr
    exact yields_then fun _ => yields_closing (yields_inOrder hf h)
  split at hr
  · cases hr
    exact yields_then fun _ => yields_closing (yields_members hf h)
  · cases hr

end Schema

end GrammarBatch.Json
