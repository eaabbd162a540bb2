import GrammarBatch.Proofs.Json.Number

/-!
# Texts and what they say

A JSON text says a value, and many texts say the same: blanks may stand between any two of its parts, and a
character of a string has several spellings.

* `Json.Tree`: what a text says, numbers as they are spelled;
* `Json.Row`, `Json.Pair`, `Json.Spells`: the spellings of lists, of members and of all values;
* `Json.Says`: a whole text, with blanks around its value.
-/

namespace GrammarBatch.Json

open Reader

/-- What a text says. -/
inductive Tree where
  | null
  | flag (b : Bool)
  /-- A number, in the characters that spell it. -/
  | number (spelling : List Char)
  | text (s : String)
  | list (items : List Tree)
  /-- An object, its members in the order of the text. -/
  | object (members : List (String × Tree))

/-- Nothing but blanks. -/
def Blank (ws : List Char) : Prop := ∀ c ∈ ws, isBlank c = true

/-- The elements between two brackets, or those that are left of them: all but the first one have a comma in
front. -/
inductive Row {α : Type} (spells : List Char → α → Prop) : Bool → List Char → List α → Prop where
  | nil {first : Bool} {ws : List Char} (h : Blank ws) : Row spells first ws []
  | first {ws cs more : List Char} {a : α} {l : List α} (hws : Blank ws) (h : spells cs a)
    (hmore : Row spells false more l) : Row spells true (ws ++ (cs ++ more)) (a :: l)
  | next {ws ws' cs more : List Char} {a : α} {l : List α} (hws : Blank ws) (hws' : Blank ws') (h : spells cs a)
    (hmore : Row spells false more l) : Row spells false (ws ++ ',' :: (ws' ++ (cs ++ more))) (a :: l)

/-- A name between quotes, a colon and a value. -/
inductive Pair {α : Type} (spells : List Char → α → Prop) : List Char → String × α → Prop where
  | mk {name ws ws' cs : List Char} {key : String} {a : α} (hname : Text.Spells name key.toList) (hws : Blank ws)
    (hws' : Blank ws') (h : spells cs a) :
    Pair spells ('"' :: (name ++ '"' :: (ws ++ ':' :: (ws' ++ cs)))) (key, a)

/-- The characters spell the value, without blanks around it. -/
inductive Spells : List Char → Tree → Prop where
  | null : Spells ['n', 'u', 'l', 'l'] .null
  | yes : Spells ['t', 'r', 'u', 'e'] (.flag true)
  | no : Spells ['f', 'a', 'l', 's', 'e'] (.flag false)
  | number {cs : List Char} (h : Number.Numeral cs) : Spells cs (.number cs)
  | text {cs : List Char} {s : String} (h : Text.Spells cs s.toList) : Spells ('"' :: (cs ++ ['"'])) (.text s)
  | list {cs : List Char} {items : List Tree} (h : Row Spells true cs items) : Spells ('[' :: (cs ++ [']'])) (.list items)
  | object {cs : List Char} {members : List (String × Tree)} (h : Row (Pair Spells) true cs members) :
    Spells ('{' :: (cs ++ ['}'])) (.object members)

/-- The whole text says the value. -/
def Says (text : String) (t : Tree) : Prop :=
  ∃ ws cs ws', text.toList = ws ++ (cs ++ ws') ∧ Blank ws ∧ Spells cs t ∧ Blank ws'

/-! ## First characters -/

variable {c : Char} {cs more rest : List Char} {t : Tree}

theorem blank_nil : Blank [] := nofun

theorem ends_nil : Ends [] := nofun

theorem ends_append {ws : List Char} (hws : Blank ws) (h : Ends rest) : Ends (ws ++ rest) := by
  cases ws with
  | nil => exact h
  | cons c ws =>
    intro d hd
    cases hd
    exact Or.inl (hws c List.mem_cons_self)

/-- Behind an element come blanks, a comma or the closing bracket. -/
theorem Row.ends {α : Type} {spells : List Char → α → Prop} {l : List α} (h : Row spells false more l)
    (hc : c = ']' ∨ c = '}') (rest : List Char) : Ends (more ++ c :: rest) := by
  cases h with
  | nil hws =>
    refine ends_append hws fun d hd => ?_
    cases hd
    exact Or.inr (Or.inr hc)
  | next hws =>
    rw [List.append_assoc]
    refine ends_append hws fun d hd => ?_
    cases hd
    exact Or.inr (Or.inl rfl)

theorem Spells.exists_cons (h : Spells cs t) :
    ∃ c cs', cs = c :: cs' ∧ isBlank c = false ∧ c ≠ ',' ∧ c ≠ ']' ∧ c ≠ '}' := by
  cases h with
  | number h =>
    obtain ⟨c, cs', rfl, -⟩ := h.exists_cons
    refine ⟨c, cs', rfl, ?_, h.head_ne rfl (by decide), h.head_ne rfl (by decide), h.head_ne rfl (by decide)⟩
    simp only [isBlank, Bool.or_eq_false_iff, beq_eq_false_iff_ne]
    exact ⟨⟨⟨h.head_ne rfl (by decide), h.head_ne rfl (by decide)⟩, h.head_ne rfl (by decide)⟩,
      h.head_ne rfl (by decide)⟩
  | _ => exact ⟨_, _, rfl, rfl, by decide, by decide, by decide⟩

end GrammarBatch.Json
