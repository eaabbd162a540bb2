import GrammarBatch.Json.Printer
import GrammarBatch.Json.Schema
import GrammarBatch.Proofs.Json.Number

/-!
# Values read back

* `Reader.Reads`: a reader takes these characters for that value, whatever follows behind it;
* `Schema.reads_text`, `Schema.reads_flag`, `Schema.reads_word32`, `Schema.reads_listOf`: the simple forms;
* `Schema.Fills`, **`Schema.reads_record`**: a record from the object that has a member for each of its fields.
-/

namespace GrammarBatch.Json

namespace Reader

variable {α : Type} {r : Reader α} {c : Char} {cs rest : List Char} {a : α}

/-- The characters are read as the value. -/
def Reads (r : Reader α) (cs : List Char) (a : α) : Prop :=
  ∀ rest, Delimited rest → r (cs ++ rest) = .ok a rest

theorem delimited_nil : Delimited [] := nofun

theorem delimited_cons (h : c = ',' ∨ c = ']' ∨ c = '}') (rest : List Char) : Delimited (c :: rest) := by
  intro d hd
  cases hd
  exact h

theorem next_cons (h : isBlank c = false) (s : List Char) : next (c :: s) = .ok (some c) (c :: s) := by
  have hs : (c :: s).dropWhile isBlank = c :: s := List.dropWhile_cons_of_neg (by simp [h])
  rw [next, hs]
  rfl

theorem run_of_reads (h : Reads r cs a) : run r cs = .ok a := by
  have hr := h [] delimited_nil
  rw [List.append_nil] at hr
  rw [run, bind_ok _ hr]
  rfl

theorem run_map {β : Type} (r : Reader α) (f : α → β) (cs : List Char) :
    run (do return f (← r)) cs = (run r cs).map f := by
  simp only [run, bind, EStateM.bind, pure, EStateM.pure]
  cases r cs with
  | error e s => rfl
  | ok a s =>
    dsimp only
    cases finish s <;> rfl

theorem closing_ok {close : Reader Unit} {s s' s'' : List Char} (h : r s = .ok a s')
    (hc : close s' = .ok () s'') : closing r close s = .ok a s'' := by
  rw [closing, h]
  dsimp only
  rw [hc]

end Reader

namespace Schema

open Reader

variable {α σ : Type} {c : Char} {cs rest s : List Char} {a : α} {r : Reader α}

/-! ## Simple forms -/

theorem value_ok {wanted : String} {start : Char → Option (Reader α)} (hc : isBlank c = false)
    (hs : start c = some r) (h : r (c :: s) = .ok a rest) : value wanted start (c :: s) = .ok a rest := by
  rw [value, located, bind_ok _ (next_cons hc s)]
  dsimp only
  rw [hs]
  dsimp only
  rw [h]

theorem reads_textOf {wanted : String} {meaning : String → Except Problem α} {t : String}
    (h : meaning t = .ok a) : Reads (textOf wanted meaning) (Text.chars t) a := by
  intro rest _
  rw [Text.chars, List.cons_append, List.cons_append, List.append_assoc, List.singleton_append]
  refine value_ok rfl rfl ?_
  change (Text.body >>= _) (_ ++ '"' :: rest) = _
  rw [bind_ok _ (Text.body_chars t rest), h]
  rfl

theorem reads_text (t : String) : Reads text (Text.chars t) t := reads_textOf rfl

theorem reads_flag (b : Bool) : Reads flag (Value.flag b).chars b := by
  intro rest _
  cases b <;> rfl

theorem isBlank_of_isDigit (h : c.isDigit = true) : isBlank c = false := by
  simp only [isBlank, Bool.or_eq_false_iff, beq_eq_false_iff_ne]
  refine ⟨⟨⟨?_, ?_⟩, ?_⟩, ?_⟩ <;> (rintro rfl; cases h)

theorem word32?_toNat (n : UInt32) : word32? (.integer n.toNat) = .ok n := by
  have hn : (0 : Int) ≤ n.toNat ∧ (n.toNat : Int) < Nat.pow 2 32 :=
    ⟨Int.natCast_nonneg _, by exact_mod_cast n.toNat_lt⟩
  rw [word32?, if_pos hn, Int.toNat_natCast, UInt32.ofNat_toNat]

theorem reads_word32 (n : UInt32) : Reads word32 (Value.number n.toNat).chars n := by
  intro rest hrest
  have hbound : n.toNat < Number.bound := Nat.lt_trans n.toNat_lt (by decide)
  have hread := Number.number_toDigits hbound hrest
  obtain ⟨c, cs, hc, hdigit⟩ := Number.exists_toDigits n.toNat
  rw [hc] at hread
  rw [Value.chars, hc]
  refine value_ok (isBlank_of_isDigit hdigit) (if_pos (Or.inr hdigit)) ?_
  change (Number.number >>= _) (c :: cs ++ rest) = _
  rw [bind_ok _ hread, word32?_toNat]
  rfl

theorem reads_null (r : Reader α) : Reads (optional r) Value.null.chars none := by
  intro rest _
  rfl

theorem reads_some (h : Reads r (c :: cs) a) (hc : isBlank c = false) (hn : c ≠ 'n') :
    Reads (optional r) (c :: cs) (some a) := by
  intro rest hrest
  have hr := h rest hrest
  rw [List.cons_append] at hr ⊢
  rw [optional, bind_ok _ (next_cons hc _), if_neg (by simpa using hn), bind_ok _ hr]
  rfl

theorem reads_choice {choices : List (String × α)} {t : String} (h : choices.lookup t = some a) :
    Reads (choice choices) (Text.chars t) a := by
  intro rest hrest
  rw [Text.chars, List.cons_append, List.cons_append, choice, bind_ok _ (next_cons rfl _)]
  change textOf _ _ (Text.chars t ++ rest) = _
  exact reads_textOf (by rw [h]) rest hrest

/-! ## Lists -/

theorem commaSeparated_cons (cs : List Char) (l : List (List Char)) :
    Value.commaSeparated (cs :: l) = cs ++ l.flatMap (',' :: ·) := by
  induction l generalizing cs with
  | nil => exact (List.append_nil cs).symm
  | cons ds l ih =>
    have hcons : Value.commaSeparated (cs :: ds :: l) = cs ++ ',' :: Value.commaSeparated (ds :: l) := rfl
    rw [hcons, ih, List.flatMap_cons, List.cons_append]

theorem itemChars_eq (items : List Value) : Value.itemChars items = items.map Value.chars := by
  induction items with
  | nil => rfl
  | cons v items ih => rw [Value.itemChars, ih, List.map_cons]

/-- No value begins with a blank or with the end of a list. -/
theorem exists_chars (v : Value) : ∃ c cs, v.chars = c :: cs ∧ isBlank c = false ∧ c ≠ ']' := by
  cases v with
  | null => exact ⟨_, _, rfl, rfl, by decide⟩
  | flag b => cases b <;> exact ⟨_, _, rfl, rfl, by decide⟩
  | number n =>
    obtain ⟨c, cs, hc, hdigit⟩ := Number.exists_toDigits n
    refine ⟨c, cs, hc, isBlank_of_isDigit hdigit, ?_⟩
    rintro rfl
    cases hdigit
  | text t => exact ⟨_, _, rfl, rfl, by decide⟩
  | list items => exact ⟨_, _, rfl, rfl, by decide⟩
  | object members => exact ⟨_, _, rfl, rfl, by decide⟩

theorem delimited_flatMap {β : Type} (l : List β) (f : β → List Char) (h : c = ']' ∨ c = '}')
    (rest : List Char) : Delimited (l.flatMap (fun b => ',' :: f b) ++ c :: rest) := by
  cases l with
  | nil => exact delimited_cons (Or.inr h) rest
  | cons b l => exact delimited_cons (Or.inl rfl) _

theorem elements_cons {limit : Nat} {first : Bool} {v : Value} {l : List α} (hr : Reads r v.chars a)
    (hs : hasElement first s = .ok true (v.chars ++ rest)) (hrest : Delimited rest)
    (h : elements r false limit rest = .ok l cs) : elements r first (limit + 1) s = .ok (a :: l) cs := by
  rw [elements, bind_ok _ hs, if_pos rfl, bind_ok _ (hr rest hrest), bind_ok _ h]
  rfl

theorem hasElement_true (v : Value) (rest : List Char) :
    hasElement true (v.chars ++ rest) = .ok true (v.chars ++ rest) := by
  obtain ⟨c, cs, hc, hblank, hend⟩ := exists_chars v
  rw [hc, List.cons_append, hasElement, bind_ok _ (next_cons hblank _)]
  dsimp only
  rw [if_neg hend]
  rfl

theorem hasElement_comma (v : Value) (rest : List Char) :
    hasElement false (',' :: (v.chars ++ rest)) = .ok true (v.chars ++ rest) := by
  obtain ⟨c, cs, hc, hblank, hend⟩ := exists_chars v
  have hskip : skip (',' :: c :: (cs ++ rest)) = .ok () (c :: (cs ++ rest)) := rfl
  rw [hc, List.cons_append, hasElement, bind_ok _ (next_cons rfl _)]
  dsimp only
  rw [if_neg (by decide), if_neg Bool.false_ne_true, if_pos rfl, bind_ok _ hskip,
    bind_ok _ (next_cons hblank _)]
  dsimp only
  rw [if_neg hend]
  rfl

theorem elements_flatMap {g : α → Value} (l : List α) {limit : Nat} (hr : ∀ a ∈ l, Reads r (g a).chars a)
    (h : l.length < limit) (rest : List Char) :
    elements r false limit (l.flatMap (fun a => ',' :: (g a).chars) ++ ']' :: rest) = .ok l (']' :: rest) := by
  induction l generalizing limit with
  | nil =>
    cases limit with
    | zero => cases h
    | succ limit => rfl
  | cons a l ih =>
    cases limit with
    | zero => cases h
    | succ limit =>
      rw [List.flatMap_cons, List.append_assoc]
      have ih := ih (fun b hb => hr b (List.mem_cons_of_mem a hb)) (Nat.lt_of_succ_lt_succ h)
      exact elements_cons (hr a List.mem_cons_self) (hasElement_comma (g a) _)
        (delimited_flatMap l _ (Or.inl rfl) rest) ih

/-- Elements are read up to the end of the list. The text is long enough, as each element has a character. -/
theorem elements_commaSeparated {g : α → Value} (l : List α) (hr : ∀ a ∈ l, Reads r (g a).chars a)
    (hs : s = Value.commaSeparated ((l.map g).map Value.chars) ++ ']' :: rest) :
    elements r true s.length s = .ok l (']' :: rest) := by
  cases l with
  | nil =>
    subst hs
    rfl
  | cons a l =>
    have hchars : s = (g a).chars ++ (l.flatMap (fun a => ',' :: (g a).chars) ++ ']' :: rest) := by
      rw [hs, List.map_cons, List.map_cons, commaSeparated_cons, List.map_map, List.flatMap_map,
        List.append_assoc]
      rfl
    have hlength := Text.length_le_flatMap (f := fun a => ',' :: (g a).chars) l fun _ _ =>
      List.cons_ne_nil _ _
    obtain ⟨c, cs, hc, -⟩ := exists_chars (g a)
    obtain ⟨limit, hlimit⟩ : ∃ limit, s.length = limit + 1 := ⟨_, by rw [hchars, hc]; rfl⟩
    have hl : l.length < limit := by
      rw [hchars, List.length_append, List.length_append, List.length_cons, hc, List.length_cons] at hlimit
      omega
    rw [hlimit, hchars]
    exact elements_cons (hr a List.mem_cons_self) (hasElement_true (g a) _)
      (delimited_flatMap l _ (Or.inl rfl) rest)
      (elements_flatMap l (fun b hb => hr b (List.mem_cons_of_mem a hb)) hl rest)

theorem reads_listOf {g : α → Value} (l : List α) (hr : ∀ a ∈ l, Reads r (g a).chars a) :
    Reads (listOf r) (Value.list (l.map g)).chars l := by
  intro rest _
  have hclose : closeList (']' :: rest) = .ok () rest := rfl
  have hchars : (Value.list (l.map g)).chars ++ rest =
      '[' :: (Value.commaSeparated ((l.map g).map Value.chars) ++ ']' :: rest) := by
    rw [Value.chars, itemChars_eq, List.cons_append, List.cons_append, List.append_assoc,
      List.singleton_append]
  rw [hchars]
  exact value_ok rfl rfl (closing_ok (elements_commaSeparated l hr rfl) hclose)

/-! ## Records -/

/-- A member as it is written. -/
def memberText (member : String × Value) : List Char := Text.chars member.1 ++ ':' :: member.2.chars

theorem memberChars_eq (members : List (String × Value)) :
    Value.memberChars members = members.map memberText := by
  induction members with
  | nil => rfl
  | cons m members ih =>
    obtain ⟨key, v⟩ := m
    rw [Value.memberChars, ih, List.map_cons]
    rfl

/-- The members give the fields of the table one after another, which leads from one record to another. -/
inductive Fills : List (Member σ) → List (String × Value) → σ → σ → Prop where
  | nil {x : σ} : Fills [] [] x x
  | cons {f : Member σ} {table : List (Member σ)} {v : Value} {members : List (String × Value)} {put : σ → σ}
    {x y : σ} (h : Reads f.read v.chars put) (hrest : Fills table members (put x) y) :
    Fills (f :: table) ((f.key, v) :: members) x y

theorem reads_of {key : String} {put : α → σ → σ} (h : Reads r cs a) :
    Reads (Member.of key r put).read cs (put a) := by
  intro rest hrest
  change (r >>= _) (cs ++ rest) = _
  rw [bind_ok _ (h rest hrest)]
  rfl

variable {table pending : List (Member σ)} {kvs : List (String × Value)} {x y : σ}

theorem members_cons {first : Bool} {f : Member σ} {v : Value} {put : σ → σ} (hr : Reads f.read v.chars put)
    (hs : hasMember first s = .ok true (memberText (f.key, v) ++ rest)) (hrest : Delimited rest) :
    members table first (f :: pending) x s = members table false pending (put x) rest := by
  have hchars : memberText (f.key, v) ++ rest =
      '"' :: (f.key.toList.flatMap Text.escaped ++ '"' :: (':' :: (v.chars ++ rest))) := by
    simp [memberText, Text.chars]
  have hbody := Text.body_chars f.key (':' :: (v.chars ++ rest))
  have hfind : (f :: pending).find? (·.key == f.key) = some f := List.find?_cons_of_pos (by simp)
  have herase : (f :: pending).eraseP (·.key == f.key) = pending := List.eraseP_cons_of_pos (by simp)
  have hcolon : colon (':' :: (v.chars ++ rest)) = .ok () (v.chars ++ rest) := rfl
  rw [hchars] at hs
  rw [members, bind_ok _ hs, if_pos rfl]
  change (Text.body >>= _) (f.key.toList.flatMap Text.escaped ++ '"' :: (':' :: (v.chars ++ rest))) = _
  rw [bind_ok _ hbody]
  simp only [herase]
  generalize (f :: pending).find? (·.key == f.key) = found at hfind
  subst hfind
  dsimp only
  rw [bind_ok _ hcolon, bind_ok _ (hr rest hrest)]

theorem members_fills (h : Fills pending kvs x y) (rest : List Char) :
    members table false pending x (kvs.flatMap (fun kv => ',' :: memberText kv) ++ '}' :: rest) =
      .ok y ('}' :: rest) := by
  induction h with
  | nil =>
    rw [members]
    rfl
  | cons hr hrest ih =>
    rw [List.flatMap_cons, List.append_assoc]
    rw [members_cons hr rfl (delimited_flatMap _ _ (Or.inr rfl) rest)]
    exact ih

theorem members_commaSeparated (h : Fills pending kvs x y) (rest : List Char) :
    members table true pending x (Value.commaSeparated (kvs.map memberText) ++ '}' :: rest) =
      .ok y ('}' :: rest) := by
  cases h with
  | nil =>
    rw [members]
    rfl
  | cons hr hrest =>
    rw [List.map_cons, commaSeparated_cons, List.flatMap_map, List.append_assoc,
      members_cons hr rfl (delimited_flatMap _ _ (Or.inr rfl) rest)]
    exact members_fills hrest rest

/-- **A record is read from the object that has a member for each of its fields, in their order.** -/
theorem reads_record {name : String} {default : σ} (h : Fills table kvs default y) :
    Reads (record name table default) (Value.object kvs).chars y := by
  intro rest _
  have hclose : closeObject ('}' :: rest) = .ok () rest := rfl
  have hchars : (Value.object kvs).chars ++ rest =
      '{' :: (Value.commaSeparated (kvs.map memberText) ++ '}' :: rest) := by
    rw [Value.chars, memberChars_eq, List.cons_append, List.cons_append, List.append_assoc,
      List.singleton_append]
  rw [hchars]
  exact value_ok rfl rfl (closing_ok (members_commaSeparated h rest) hclose)

end Schema
end GrammarBatch.Json
