import GrammarBatch.Proofs.Json.Decoded
import GrammarBatch.Proofs.Json.Schema
import Mathlib.Data.List.Forall2

/-!
# Values on many lines

A value that is written with a line for each element and member says what it is, as blanks between its parts say
nothing.

* `Value.tree`: what a value says;
* `row_lines`: parts on lines of their own are a row;
* **`Value.says_indented`**: the text of a value says it, and so do blanks behind it.
-/

namespace GrammarBatch.Json

variable {α : Type} {spells : List Char → α → Prop} {parts : List (List Char)} {l : List α} {ws ws' : List Char}

/-! ## Rows -/

/-- What stands between two brackets if each part is on a line of its own. -/
def lines (depth : Nat) (parts : List (List Char)) : List Char :=
  if parts.isEmpty then []
  else Value.commaSeparated (parts.map (Value.lineStart (depth + 1) ++ ·)) ++ Value.lineStart depth

theorem block_eq (opening closing : Char) (depth : Nat) (parts : List (List Char)) :
    Value.block opening closing depth parts = opening :: (lines depth parts ++ [closing]) := by
  rw [Value.block, lines]
  split
  · rfl
  · rfl

theorem blank_lineStart (depth : Nat) : Blank (Value.lineStart depth) := by
  intro c hc
  rcases List.mem_cons.1 hc with rfl | hc
  · rfl
  · rw [List.eq_of_mem_replicate hc]
    rfl

theorem row_more (hws : Blank ws) (hws' : Blank ws') (h : List.Forall₂ spells parts l) :
    Row spells false ((parts.flatMap fun cs => ',' :: (ws ++ cs)) ++ ws') l := by
  induction h with
  | nil => exact .nil hws'
  | @cons cs a parts l ha _ ih =>
    rw [List.flatMap_cons, List.append_assoc, List.cons_append, List.append_assoc]
    exact .next blank_nil hws ha ih

theorem row_lines (depth : Nat) (h : List.Forall₂ spells parts l) : Row spells true (lines depth parts) l := by
  cases h with
  | nil => exact .nil blank_nil
  | @cons cs a parts l ha hmore =>
    have hrow := row_more (blank_lineStart (depth + 1)) (blank_lineStart depth) hmore
    rw [lines, if_neg (by simp), List.map_cons, Schema.commaSeparated_cons, List.flatMap_map, List.append_assoc,
      List.append_assoc]
    exact .first (blank_lineStart (depth + 1)) ha hrow

/-! ## Values -/

namespace Value

mutual

/-- What a value says. -/
def tree : Value → Tree
  | null => .null
  | flag b => .flag b
  | number n => .number (Nat.toDigits 10 n)
  | text s => .text s
  | list items => .list (itemTrees items)
  | object members => .object (memberTrees members)

/-- What each element says. -/
def itemTrees : List Value → List Tree
  | [] => []
  | v :: vs => v.tree :: itemTrees vs

/-- What each member says. -/
def memberTrees : List (String × Value) → List (String × Tree)
  | [] => []
  | (key, v) :: ms => (key, v.tree) :: memberTrees ms

end

theorem itemTrees_map (f : α → Value) (l : List α) : itemTrees (l.map f) = l.map fun a => (f a).tree := by
  induction l with
  | nil => rfl
  | cons a l ih => rw [List.map_cons, itemTrees, ih, List.map_cons]

theorem spells_text (s : String) : Spells (Text.chars s) (.text s) := .text (Text.spells_flatMap s.toList)

theorem spells_number (n : Nat) : Spells (Nat.toDigits 10 n) (.number (Nat.toDigits 10 n)) := by
  have h := Number.Numeral.positive (Number.whole_toDigits n) .none .none
  rw [List.append_nil, List.append_nil] at h
  exact .number h

mutual

/-- **A value's characters spell it, at any depth.** -/
theorem spells_indentedChars (depth : Nat) : ∀ v : Value, Spells (v.indentedChars depth) v.tree
  | null => .null
  | flag true => .yes
  | flag false => .no
  | number n => spells_number n
  | text s => spells_text s
  | list items => by
    rw [indentedChars, block_eq]
    exact .list (row_lines depth (spells_indentedItems (depth + 1) items))
  | object members => by
    rw [indentedChars, block_eq]
    exact .object (row_lines depth (spells_indentedMembers (depth + 1) members))

theorem spells_indentedItems (depth : Nat) :
    ∀ items : List Value, List.Forall₂ Spells (indentedItems depth items) (itemTrees items)
  | [] => .nil
  | v :: vs => .cons (spells_indentedChars depth v) (spells_indentedItems depth vs)

theorem spells_indentedMembers (depth : Nat) : ∀ members : List (String × Value),
    List.Forall₂ (Pair Spells) (indentedMembers depth members) (memberTrees members)
  | [] => .nil
  | (key, v) :: ms => by
    have hblank : Blank [' '] := List.forall_mem_singleton.2 rfl
    have hpair := Pair.mk (Text.spells_flatMap key.toList) blank_nil hblank (spells_indentedChars depth v)
    have hchars : '"' :: (key.toList.flatMap Text.escaped ++ '"' :: ([] ++ ':' :: ([' '] ++ v.indentedChars depth))) =
        Text.chars key ++ ':' :: ' ' :: v.indentedChars depth := by
      rw [Text.chars, List.append_assoc]
      rfl
    rw [hchars] at hpair
    exact .cons hpair (spells_indentedMembers depth ms)

end

/-- **The text of a value and a line's end say the value.** -/
theorem says_indented (v : Value) : Says (v.indented ++ "\n") v.tree := by
  refine ⟨[], v.indentedChars 0, ['\n'], ?_, blank_nil, spells_indentedChars 0 v, List.forall_mem_singleton.2 rfl⟩
  rw [indented, String.toList_append, String.toList_ofList]
  rfl

end Value

end GrammarBatch.Json
