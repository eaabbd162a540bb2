import GrammarBatch.Json.Text
import Mathlib.Algebra.BigOperators.Group.List.Basic

/-!
# Strings read back

* `Reader.bind_ok`: a reader that succeeds hands on to the next one;
* `Text.Spells`: a character has several spellings, by itself, by a letter, or by one number or two;
* **`Text.body_spells`**: a string is read from any spelling of its characters;
* `Text.body_chars`: so a string that was written is read again.
-/

namespace GrammarBatch.Json

namespace Reader

variable {α β : Type} {a : α} {s s' : List Char}

theorem bind_ok {r : Reader α} (f : α → Reader β) (h : r s = .ok a s') : (r >>= f) s = f a s' := by
  change EStateM.bind r f s = f a s'
  rw [EStateM.bind, h]

end Reader

namespace Text

open Reader

variable {c d : Char} {cs s rest : List Char} {n m limit : Nat}

/-- The characters between the quotes spell the characters of a string. -/
inductive Spells : List Char → List Char → Prop where
  | nil : Spells [] []
  /-- A character that stands for itself. -/
  | plain {c : Char} {cs s : List Char} (hq : c ≠ '"') (hb : c ≠ '\\') (hc : ¬ c.toNat < 0x20) (h : Spells cs s) :
    Spells (c :: cs) (c :: s)
  /-- An escape by a letter. -/
  | letter {l c : Char} {cs s : List Char} (hl : letters.lookup l = some c) (h : Spells cs s) :
    Spells ('\\' :: l :: cs) (c :: s)
  /-- An escape by number. -/
  | numbered {a b c d : Char} {n : Nat} {cs s : List Char} (hn : hexNumber? [a, b, c, d] = some n)
    (hl : isLeading n = false) (ht : isTrailing n = false) (h : Spells cs s) :
    Spells ('\\' :: 'u' :: a :: b :: c :: d :: cs) (Char.ofNat n :: s)
  /-- Two escapes for a character past U+FFFF. -/
  | pair {a b c d a' b' c' d' : Char} {n m : Nat} {cs s : List Char} (hn : hexNumber? [a, b, c, d] = some n)
    (hm : hexNumber? [a', b', c', d'] = some m) (hl : isLeading n = true) (ht : isTrailing m = true)
    (h : Spells cs s) :
    Spells ('\\' :: 'u' :: a :: b :: c :: d :: '\\' :: 'u' :: a' :: b' :: c' :: d' :: cs)
      (Char.ofNat ((n - 0xD800) * 0x400 + (m - 0xDC00) + 0x10000) :: s)

/-! ## Reading -/

theorem length_le_byteCount (s : List Char) : s.length ≤ byteCount s := by
  rw [byteCount, ← List.sum_eq_foldl]
  induction s with
  | nil => exact Nat.le_refl 0
  | cons c s ih =>
    have hc := c.utf8Size_pos
    rw [List.map_cons, List.sum_cons, List.length_cons]
    omega

theorem hexNumber_cons {a b : Char} (h : hexNumber? [a, b, c, d] = some n) (s : List Char) :
    hexNumber (a :: b :: c :: d :: s) = .ok n s := by
  have hlong : ¬ byteCount (a :: b :: c :: d :: s) < 4 := by
    have hlen := length_le_byteCount (a :: b :: c :: d :: s)
    simp only [List.length_cons] at hlen
    omega
  change hexNumber? (a :: b :: c :: d :: s) = some n at h
  change (if byteCount _ < 4 then failAtEnd .endOfText else _ : Reader Nat) _ = _
  rw [if_neg hlong, h]
  rfl

theorem isTrailing_of_isLeading (h : isLeading n = true) : isTrailing n = false := by
  simp only [isLeading, isTrailing, Bool.and_eq_true, Bool.and_eq_false_iff, decide_eq_true_eq,
    decide_eq_false_iff_not] at *
  omega

theorem numbered_single {a b : Char} (hn : hexNumber? [a, b, c, d] = some n) (hl : isLeading n = false)
    (ht : isTrailing n = false) (s : List Char) : numbered (a :: b :: c :: d :: s) = .ok (Char.ofNat n) s := by
  rw [numbered, bind_ok _ (hexNumber_cons hn s), ht, hl, if_neg Bool.false_ne_true, if_neg Bool.false_ne_true]
  rfl

theorem numbered_pair {a b a' b' c' d' : Char} (hn : hexNumber? [a, b, c, d] = some n)
    (hm : hexNumber? [a', b', c', d'] = some m) (hl : isLeading n = true) (ht : isTrailing m = true)
    (s : List Char) : numbered (a :: b :: c :: d :: '\\' :: 'u' :: a' :: b' :: c' :: d' :: s) =
      .ok (Char.ofNat ((n - 0xD800) * 0x400 + (m - 0xDC00) + 0x10000)) s := by
  have hpartner (e : Char) (s : List Char) : partner e (e :: s) = .ok () s := by
    change (if e = e then skip else _ : Reader Unit) _ = _
    rw [if_pos rfl]
    rfl
  rw [numbered, bind_ok _ (hexNumber_cons hn _), isTrailing_of_isLeading hl, hl, if_neg Bool.false_ne_true,
    if_pos rfl, bind_ok _ (hpartner _ _), bind_ok _ (hpartner _ _), bind_ok _ (hexNumber_cons hm s), if_pos ht]
  rfl

theorem escape_letter {l : Char} (h : letters.lookup l = some c) (s : List Char) : escape (l :: s) = .ok c s := by
  have hpeek : peek (l :: s) = .ok (some l) (l :: s) := rfl
  rw [escape, bind_ok _ hpeek]
  dsimp only
  rw [h]
  rfl

theorem charsTo_escape (he : escape s = .ok c cs) (h : charsTo limit cs = .ok s' rest) :
    charsTo (limit + 1) ('\\' :: s) = .ok (c :: s') rest := by
  change (escape >>= fun d => charsTo limit >>= fun ds => pure (d :: ds)) s = _
  rw [bind_ok _ he, bind_ok _ h]
  rfl

/-- Characters are read from any spelling of them, if the limit allows for so many. -/
theorem charsTo_spells (h : Spells cs s) (hs : s.length < limit) (rest : List Char) :
    charsTo limit (cs ++ '"' :: rest) = .ok s rest := by
  -- the limit counts the characters of the string, of which each spelling gives one
  induction limit generalizing cs s with
  | zero => cases hs
  | succ limit ih =>
    cases h with
    | nil => rfl
    | @plain c cs s hq hb hc h =>
      change (if c = '"' then _ else if c = '\\' then _ else if c.toNat < 0x20 then _ else _ : Reader _)
        (c :: (cs ++ '"' :: rest)) = _
      rw [if_neg hq, if_neg hb, if_neg hc]
      change (charsTo limit >>= fun ds => pure (c :: ds)) (cs ++ '"' :: rest) = _
      rw [bind_ok _ (ih h (Nat.lt_of_succ_lt_succ hs))]
      rfl
    | letter hl h => exact charsTo_escape (escape_letter hl _) (ih h (Nat.lt_of_succ_lt_succ hs))
    | numbered hn hl ht h => exact charsTo_escape (numbered_single hn hl ht _) (ih h (Nat.lt_of_succ_lt_succ hs))
    | pair hn hm hl ht h => exact charsTo_escape (numbered_pair hn hm hl ht _) (ih h (Nat.lt_of_succ_lt_succ hs))

theorem Spells.length_le (h : Spells cs s) : s.length ≤ cs.length := by
  induction h <;> simp only [List.length_cons, List.length_nil] <;> omega

/-- **A string is read from any spelling of its characters.** -/
theorem body_spells {t : String} (h : Spells cs t.toList) (rest : List Char) :
    body (cs ++ '"' :: rest) = .ok t rest := by
  have hlength := h.length_le
  have hread : charsTo ((cs ++ '"' :: rest).length + 1) (cs ++ '"' :: rest) = .ok t.toList rest := by
    refine charsTo_spells h ?_ rest
    rw [List.length_append]
    omega
  change (charsTo _ >>= fun cs => pure (String.ofList cs)) _ = _
  rw [bind_ok _ hread, String.ofList_toList]
  rfl

/-! ## Reading what was written -/

theorem hexDigit?_hexChar : ∀ n < 16, hexDigit? (hexChar n) = some n := by decide

/-- What writes something for each element writes at least as much as there are elements. -/
theorem length_le_flatMap {α β : Type} {f : α → List β} (l : List α) (hf : ∀ a ∈ l, f a ≠ []) :
    l.length ≤ (l.flatMap f).length := by
  induction l with
  | nil => exact Nat.le_refl 0
  | cons a l ih =>
    have ha := List.length_pos_of_ne_nil (hf a List.mem_cons_self)
    have ih := ih fun b hb => hf b (List.mem_cons_of_mem a hb)
    rw [List.flatMap_cons, List.length_append, List.length_cons]
    omega

theorem hexNumber?_control (h : c.toNat < 0x20) :
    hexNumber? ['0', '0', hexChar (c.toNat / 16), hexChar (c.toNat % 16)] = some c.toNat := by
  have hzero : hexDigit? '0' = some 0 := rfl
  have hhigh := hexDigit?_hexChar (c.toNat / 16) (by omega)
  have hlow := hexDigit?_hexChar (c.toNat % 16) (by omega)
  simp only [hexNumber?, hzero, hhigh, hlow, Option.bind_eq_bind, Option.bind_some, Option.pure_def]
  congr 1
  omega

theorem spells_control (h : Spells cs s) (hc : c.toNat < 0x20) :
    Spells ('\\' :: 'u' :: '0' :: '0' :: hexChar (c.toNat / 16) :: hexChar (c.toNat % 16) :: cs) (c :: s) := by
  have hleading : isLeading c.toNat = false := by
    simp only [isLeading, Bool.and_eq_false_iff, decide_eq_false_iff_not]
    omega
  have htrailing : isTrailing c.toNat = false := by
    simp only [isTrailing, Bool.and_eq_false_iff, decide_eq_false_iff_not]
    omega
  have hspells := Spells.numbered (hexNumber?_control hc) hleading htrailing h
  rwa [Char.ofNat_toNat] at hspells

theorem spells_escaped (h : Spells cs s) (c : Char) : Spells (escaped c ++ cs) (c :: s) := by
  unfold escaped
  split
  · subst_vars
    exact .letter rfl h
  split
  · subst_vars
    exact .letter rfl h
  split
  · subst_vars
    exact .letter rfl h
  split
  · subst_vars
    exact .letter rfl h
  split
  · subst_vars
    exact .letter rfl h
  split
  · subst_vars
    exact .letter rfl h
  split
  · subst_vars
    exact .letter rfl h
  split
  · rename_i hc
    exact spells_control h hc
  · rename_i hquote hback _ _ _ _ _ hc
    exact .plain hquote hback hc h

theorem spells_flatMap (cs : List Char) : Spells (cs.flatMap escaped) cs := by
  induction cs with
  | nil => exact .nil
  | cons c cs ih => exact spells_escaped ih c

/-- **A string that was written is read again.** -/
theorem body_chars (t : String) (rest : List Char) :
    body (t.toList.flatMap escaped ++ '"' :: rest) = .ok t rest :=
  body_spells (spells_flatMap t.toList) rest

end Text
end GrammarBatch.Json
