import GrammarBatch.Proofs.Json.Natural

/-!
# Readers as decoders

A reader takes a text character by character. What it gives depends on what the text says alone, not on how it is
spelled.

* `Schema.Decodes`, `Schema.Decodes.run`: the reader gives what a function makes of the tree, whatever the spelling;
* `Schema.decodes_textOf`, `Schema.decodes_flag`, `Schema.decodes_word32`, `Schema.decodes_optional`,
  `Schema.decodes_choice`: the simple forms;
* **`Schema.decodes_listOf`**: lists of a form.
-/

namespace GrammarBatch.Json

open Reader

/-! ## Trees of a form -/

namespace Tree

variable {α : Type}

def text? : Tree → Option String
  | .text s => some s
  | _ => none

def flag? : Tree → Option Bool
  | .flag b => some b
  | _ => none

def word32? : Tree → Option UInt32
  | .number cs =>
    match Number.natural? cs with
    | some n => if n < Nat.pow 2 32 then some (UInt32.ofNat n) else none
    | none => none
  | _ => none

def null? : Tree → Option Unit
  | .null => some ()
  | _ => none

def optional? (decode : Tree → Option α) : Tree → Option (Option α)
  | .null => some none
  | t => (decode t).map some

/-- One of several words, as a string or as the name of the only member of an object, which is `null`. -/
def choice? (choices : List (String × α)) : Tree → Option α
  | .text s => choices.lookup s
  | .object [(s, .null)] => choices.lookup s
  | _ => none

def listOf? (decode : Tree → Option α) : Tree → Option (List α)
  | .list items => items.mapM decode
  | _ => none

end Tree

namespace Schema

variable {α β : Type} {r : Reader α} {decode : Tree → Option α} {start : Char → Option (Reader α)}
  {c : Char} {cs rest ws : List Char} {t : Tree} {wanted : String}

/-- Wherever a tree is spelled, the reader gives what `decode` makes of it, and leaves what follows. -/
def Decodes (r : Reader α) (decode : Tree → Option α) : Prop :=
  ∀ ws cs rest t, Blank ws → Spells cs t → Ends rest → given r (ws ++ (cs ++ rest)) = (decode t).map (·, rest)

/-- **What a reader makes of a whole text is what it makes of the tree.** -/
theorem Decodes.run {text : String} (h : Decodes r decode) (ht : Says text t) :
    (Reader.run r text.toList).toOption = decode t := by
  obtain ⟨ws, cs, ws', htext, hws, hcs, hws'⟩ := ht
  have hends : Ends ws' := by
    rw [← List.append_nil ws']
    exact ends_append hws' ends_nil
  have hgiven := h ws cs ws' t hws hcs hends
  rw [← htext] at hgiven
  cases hdecode : decode t with
  | some a =>
    rw [hdecode] at hgiven
    rw [run_of_given hgiven hws']
    rfl
  | none =>
    rw [hdecode] at hgiven
    obtain ⟨fault, hfault⟩ := run_of_given_none hgiven
    rw [hfault]
    rfl

/-! ## Simple forms -/

/-- A value is decoded where the reader that its first character calls decodes it. -/
theorem decodes_value (h : ∀ c cs rest t, Spells (c :: cs) t → Ends rest →
    ((start c).bind fun r => given r (c :: (cs ++ rest))) = (decode t).map (·, rest)) :
    Decodes (value wanted start) decode := by
  intro ws cs rest t hws hcs hrest
  obtain ⟨c, cs, rfl, hblank, -⟩ := hcs.exists_cons
  rw [List.cons_append, given_value hws hblank]
  exact h c cs rest t hcs hrest

theorem Decodes.map (h : Decodes r decode) (f : α → β) :
    Decodes (do return f (← r)) fun t => (decode t).map f := by
  intro ws cs rest t hws hcs hrest
  change given (r >>= _) _ = ((decode t).map f).map (·, rest)
  rw [given_bind, h ws cs rest t hws hcs hrest]
  cases decode t <;> rfl

theorem given_quoted {meaning : String → Except Problem α} {s : String} (h : Text.Spells cs s.toList)
    (rest : List Char) : given (do
      skip
      let s ← Text.body
      match meaning s with
      | .ok a => pure a
      | .error p => fail p : Reader α) ('"' :: (cs ++ '"' :: rest)) = (meaning s).toOption.map (·, rest) := by
  have hbody : given Text.body (cs ++ '"' :: rest) = some (s, rest) := given_of_ok (Text.body_spells h rest)
  rw [given_bind, given_skip, Option.bind_some, List.tail_cons, given_bind, hbody, Option.bind_some]
  cases meaning s <;> rfl

theorem given_textOf {meaning : String → Except Problem α} {s : String} (hws : Blank ws)
    (h : Text.Spells cs s.toList) (rest : List Char) :
    given (textOf wanted meaning) (ws ++ '"' :: (cs ++ '"' :: rest)) = (meaning s).toOption.map (·, rest) := by
  rw [textOf, given_value hws rfl]
  exact given_quoted h rest

theorem decodes_textOf {meaning : String → Except Problem α} :
    Decodes (textOf wanted meaning) fun t => t.text?.bind fun s => (meaning s).toOption := by
  refine decodes_value fun c cs rest t hcs _ => ?_
  cases hcs with
  | text h =>
    rw [List.append_assoc]
    exact given_quoted h rest
  | number h =>
    rw [if_neg (h.head_ne rfl (by decide))]
    rfl
  | _ => rfl

theorem decodes_text : Decodes text Tree.text? := by
  intro ws cs rest t hws hcs hrest
  rw [text, decodes_textOf ws cs rest t hws hcs hrest]
  cases t <;> rfl

theorem decodes_flag : Decodes flag Tree.flag? := by
  refine decodes_value fun c cs rest t hcs _ => ?_
  cases hcs with
  | number h =>
    rw [if_neg (h.head_ne rfl (by decide)), if_neg (h.head_ne rfl (by decide))]
    rfl
  | _ => rfl

theorem decodes_null : Decodes null Tree.null? := by
  refine decodes_value fun c cs rest t hcs _ => ?_
  cases hcs with
  | number h =>
    rw [if_neg (h.head_ne rfl (by decide))]
    rfl
  | _ => rfl

theorem word32?_eq_ok_iff {f : Found} {w : UInt32} :
    word32? f = .ok w ↔ ∃ n : Nat, f = .integer n ∧ n < Nat.pow 2 32 ∧ w = UInt32.ofNat n := by
  constructor
  · intro h
    unfold word32? at h
    split at h
    · split at h
      · rename_i i hi
        cases h
        exact ⟨i.toNat, by rw [Int.toNat_of_nonneg hi.1], by omega, rfl⟩
      · cases h
    · cases h
  · rintro ⟨n, rfl, hn, rfl⟩
    rw [word32?, if_pos ⟨Int.natCast_nonneg n, by exact_mod_cast hn⟩, Int.toNat_natCast]

theorem word32?_number {w : UInt32} : Tree.word32? (.number cs) = some w ↔
    ∃ n, Number.natural? cs = some n ∧ n < Nat.pow 2 32 ∧ w = UInt32.ofNat n := by
  rw [Tree.word32?]
  cases Number.natural? cs with
  | none => simp
  | some n => simp [eq_comm]

theorem word32?_toDigits (n : UInt32) : Tree.word32? (.number (Nat.toDigits 10 n.toNat)) = some n :=
  word32?_number.2 ⟨n.toNat, Number.natural?_toDigits n.toNat, n.toNat_lt, (UInt32.ofNat_toNat).symm⟩

/-- Of the numbers, those are taken that are spelled by digits alone and fit into 32 bits. -/
theorem given_number_word32 (h : Number.Numeral cs) (hrest : Ends rest) : given (do
      match word32? (← Number.number) with
      | .ok n => pure n
      | .error p => fail p : Reader UInt32) (cs ++ rest) = (Tree.word32? (.number cs)).map (·, rest) := by
  have hmatch (f : Found) (s : List Char) (w : UInt32) (s' : List Char) : given (match word32? f with
      | .ok n => pure n
      | .error p => fail p : Reader UInt32) s = some (w, s') ↔ word32? f = .ok w ∧ s = s' := by
    cases word32? f <;> simp
  ext ⟨w, s⟩
  rw [given_bind, Option.bind_eq_some_iff, Option.map_eq_some_iff]
  simp only [hmatch, word32?_eq_ok_iff, word32?_number, Prod.mk.injEq]
  constructor
  · rintro ⟨⟨f, s'⟩, hg, ⟨n, rfl, hn, rfl⟩, rfl⟩
    obtain ⟨hnat, -, rfl⟩ := (Number.given_number_eq_integer_iff h hrest).1 hg
    exact ⟨_, ⟨n, hnat, hn, rfl⟩, rfl, rfl⟩
  · rintro ⟨_, ⟨n, hnat, hn, rfl⟩, rfl, rfl⟩
    have hbound : n < Number.bound := Nat.lt_trans hn (by decide)
    exact ⟨_, (Number.given_number_eq_integer_iff h hrest).2 ⟨hnat, hbound, rfl⟩, ⟨n, rfl, hn, rfl⟩, rfl⟩

theorem decodes_word32 : Decodes word32 Tree.word32? := by
  refine decodes_value fun c cs rest t hcs hrest => ?_
  cases hcs with
  | number h =>
    obtain ⟨_, _, hcons, hc⟩ := h.exists_cons
    cases hcons
    rw [if_pos hc]
    exact given_number_word32 h hrest
  | _ => rfl

/-- What follows blanks is a value, unless it is `null`. -/
theorem decodes_optional (h : Decodes r decode) : Decodes (optional r) (Tree.optional? decode) := by
  intro ws cs rest t hws hcs hrest
  have hr := h [] cs rest t blank_nil hcs hrest
  obtain ⟨c, cs, rfl, hblank, -⟩ := hcs.exists_cons
  rw [optional, given_bind, List.cons_append, given_next hws hblank, Option.bind_some]
  have hsome (hc : c ≠ 'n') : given (if some c = some 'n' then do
      word "null".toList
      pure none
    else do
      let a ← r
      pure (some a) : Reader (Option α)) (c :: (cs ++ rest)) = ((decode t).map some).map (·, rest) := by
    rw [if_neg (by simpa using hc), given_bind, ← List.cons_append]
    rw [List.nil_append] at hr
    rw [hr]
    cases decode t <;> rfl
  cases hcs with
  | null => rfl
  | number h => exact hsome (h.head_ne rfl (by decide))
  | _ => exact hsome (by decide)

theorem given_colon (hws : Blank ws) (s : List Char) : given colon (ws ++ ':' :: s) = some ((), s) := by
  rw [colon, given_bind, given_next hws rfl]
  rfl

/-- Reads one of several words, as a string. -/
def oneOf (choices : List (String × α)) : Reader α :=
  textOf "variant identifier" fun s =>
    match choices.lookup s with
    | some a => .ok a
    | none => .error (.unknownChoice s (choices.map (·.1)))

theorem given_oneOf (choices : List (String × α)) {s : String} (h : Text.Spells cs s.toList) (rest : List Char) :
    given (oneOf choices) ('"' :: (cs ++ '"' :: rest)) = (choices.lookup s).map (·, rest) := by
  rw [oneOf, ← List.nil_append ('"' :: _), given_textOf blank_nil h rest]
  cases choices.lookup s <;> rfl

/-- Reads the only member of an object, which is `null`, and the end of the object. -/
def onlyMember (name : Reader α) : Reader α := do
  let a ← name
  colon
  null
  match ← next with
  | none => failHere .endOfObject
  | some c => if c = '}' then do skip; pure a else failHere .badValue

theorem given_choice_name (choices : List (String × α)) (hws : Blank ws) (s : List Char) :
    given (choice choices) (ws ++ '"' :: s) = given (oneOf choices) ('"' :: s) := by
  rw [choice, given_bind, given_next hws rfl]
  rfl

theorem given_choice_member (choices : List (String × α)) {ws' : List Char} (hws : Blank ws) (hws' : Blank ws')
    (s : List Char) :
    given (choice choices) (ws ++ '{' :: (ws' ++ '"' :: s)) = given (onlyMember (oneOf choices)) ('"' :: s) := by
  rw [choice, given_bind, given_next hws rfl]
  change given (skip >>= fun _ => next >>= _) ('{' :: (ws' ++ '"' :: s)) = _
  rw [given_bind, given_skip, Option.bind_some, List.tail_cons, given_bind, given_next hws' rfl]
  rfl

theorem given_choice_empty (choices : List (String × α)) {ws' : List Char} (hws : Blank ws) (hws' : Blank ws')
    (s : List Char) : given (choice choices) (ws ++ '{' :: (ws' ++ '}' :: s)) = none := by
  rw [choice, given_bind, given_next hws rfl]
  change given (skip >>= fun _ => next >>= _) ('{' :: (ws' ++ '}' :: s)) = _
  rw [given_bind, given_skip, Option.bind_some, List.tail_cons, given_bind, given_next hws' rfl]
  rfl

theorem given_choice_other (choices : List (String × α)) (hws : Blank ws) (hblank : isBlank c = false)
    (hquote : c ≠ '"') (hbrace : c ≠ '{') (s : List Char) : given (choice choices) (ws ++ c :: s) = none := by
  rw [choice, given_bind, given_next hws hblank, Option.bind_some]
  dsimp only
  split
  · rfl
  · rename_i hc
    exact absurd (Option.some.inj hc) hquote
  · rename_i hc
    exact absurd (Option.some.inj hc) hbrace
  · rfl

theorem choice?_object (choices : List (String × α)) (key : String) (t : Tree) (members : List (String × Tree)) :
    Tree.choice? choices (.object ((key, t) :: members)) =
      (choices.lookup key).bind fun a => t.null?.bind fun _ => if members.isEmpty then some a else none := by
  cases hkey : choices.lookup key <;> cases t <;> cases members <;> first | exact hkey | rfl

/-- The name of the only member is taken, if its value is `null` and no other member comes. -/
theorem given_onlyMember (choices : List (String × α)) {ws' value more : List Char} {key : String}
    {members : List (String × Tree)} (hname : Text.Spells cs key.toList) (hws : Blank ws) (hws' : Blank ws')
    (ht : Spells value t) (hmore : Row (Pair Spells) false more members) (rest : List Char) :
    given (onlyMember (oneOf choices))
        ('"' :: (cs ++ '"' :: (ws ++ ':' :: (ws' ++ (value ++ (more ++ '}' :: rest)))))) =
      (Tree.choice? choices (.object ((key, t) :: members))).map (·, rest) := by
  have hnull := decodes_null ws' value _ t hws' ht (hmore.ends (Or.inr rfl) rest)
  rw [onlyMember, given_bind, given_oneOf choices hname, choice?_object]
  cases choices.lookup key with
  | none => rfl
  | some a =>
    rw [Option.map_some, Option.bind_some, given_bind, given_colon hws, Option.bind_some, given_bind, hnull]
    cases t.null? with
    | none => rfl
    | some u =>
      rw [Option.map_some, Option.bind_some, given_bind]
      cases hmore with
      | nil hws =>
        rw [given_next hws rfl]
        rfl
      | next hws =>
        rw [List.append_assoc, List.cons_append, given_next hws rfl]
        rfl

theorem decodes_choice (choices : List (String × α)) : Decodes (choice choices) (Tree.choice? choices) := by
  intro ws cs rest t hws hcs hrest
  cases hcs with
  | number h =>
    obtain ⟨c, cs, rfl, hblank, -⟩ := (Spells.number h).exists_cons
    exact given_choice_other choices hws hblank (h.head_ne rfl (by decide)) (h.head_ne rfl (by decide)) _
  | text h =>
    rw [List.cons_append, List.append_assoc, given_choice_name choices hws]
    exact given_oneOf choices h rest
  | object h =>
    rw [List.cons_append, List.append_assoc, List.singleton_append]
    cases h with
    | nil hws' => exact given_choice_empty choices hws hws' rest
    | first hws' hpair hmore =>
      obtain ⟨hname, hws₁, hws₂, ht⟩ := hpair
      rw [← given_onlyMember choices hname hws₁ hws₂ ht hmore rest, ← given_choice_member choices hws hws']
      simp only [List.append_assoc, List.cons_append]
  | _ => exact given_choice_other choices hws rfl (by decide) (by decide) _

/-! ## Lists -/

variable {first : Bool} {l : List Tree} {limit : Nat}

theorem given_hasElement_nil (h : Row Spells first cs []) (rest : List Char) :
    given (hasElement first) (cs ++ ']' :: rest) = some (false, ']' :: rest) := by
  cases h with
  | nil hws =>
    rw [hasElement, given_bind, given_next hws rfl]
    rfl

theorem given_hasElement_cons (h : Row Spells first cs (t :: l)) (rest : List Char) :
    ∃ item more, Spells item t ∧ Row Spells false more l ∧
      given (hasElement first) (cs ++ ']' :: rest) = some (true, item ++ (more ++ ']' :: rest)) := by
  cases h with
  | first hws hitem hmore =>
    refine ⟨_, _, hitem, hmore, ?_⟩
    obtain ⟨c, item, rfl, hblank, -, hend, -⟩ := hitem.exists_cons
    rw [List.append_assoc, List.append_assoc, List.cons_append, hasElement, given_bind, given_next hws hblank,
      Option.bind_some]
    dsimp only
    rw [if_neg hend]
    rfl
  | next hws hws' hitem hmore =>
    refine ⟨_, _, hitem, hmore, ?_⟩
    obtain ⟨c, item, rfl, hblank, -, hend, -⟩ := hitem.exists_cons
    rw [List.append_assoc, List.cons_append, List.append_assoc, List.append_assoc, List.cons_append, hasElement,
      given_bind, given_next hws rfl]
    change given (skip >>= fun _ => next >>= _) _ = _
    rw [given_bind, given_skip, Option.bind_some, List.tail_cons, given_bind, given_next hws' hblank,
      Option.bind_some]
    dsimp only
    rw [if_neg hend]
    rfl

theorem given_elements (h : Decodes r decode) (hrow : Row Spells first cs l) (hl : l.length < limit)
    (rest : List Char) :
    given (elements r first limit) (cs ++ ']' :: rest) = (l.mapM decode).map (·, ']' :: rest) := by
  induction l generalizing first cs limit with
  | nil =>
    cases limit with
    | zero => cases hl
    | succ limit =>
      rw [elements, given_bind, given_hasElement_nil hrow]
      rfl
  | cons t l ih =>
    cases limit with
    | zero => cases hl
    | succ limit =>
      obtain ⟨item, more, hitem, hmore, hhas⟩ := given_hasElement_cons hrow rest
      have hr := h [] item _ t blank_nil hitem (hmore.ends (Or.inl rfl) rest)
      rw [List.nil_append] at hr
      have ih := ih hmore (Nat.lt_of_succ_lt_succ hl)
      rw [elements, given_bind, hhas, Option.bind_some, if_pos rfl, given_bind, hr, List.mapM_cons]
      cases decode t with
      | none => rfl
      | some a =>
        rw [Option.map_some, Option.bind_some, given_bind, ih]
        cases l.mapM decode <;> rfl

theorem length_le_of_row (h : Row Spells first cs l) : l.length ≤ cs.length := by
  induction h with
  | nil => exact Nat.zero_le _
  | first hws hitem hmore ih =>
    obtain ⟨c, item, rfl, -⟩ := hitem.exists_cons
    simp only [List.length_append, List.length_cons]
    omega
  | next hws hws' hitem hmore ih =>
    simp only [List.length_append, List.length_cons]
    omega

/-- **A list is decoded element by element.** -/
theorem decodes_listOf (h : Decodes r decode) : Decodes (listOf r) (Tree.listOf? decode) := by
  refine decodes_value fun c cs rest t hcs _ => ?_
  cases hcs with
  | @list cs items hrow =>
    have hlength := length_le_of_row hrow
    have hclose : given closeList (']' :: rest) = some ((), rest) := rfl
    rw [List.append_assoc, List.singleton_append, if_pos rfl, Option.bind_some, given_bind, given_skip,
      Option.bind_some, List.tail_cons, given_bind, given_get, Option.bind_some, given_closing,
      given_elements h hrow (by rw [List.length_append, List.length_cons]; omega) rest]
    change _ = (items.mapM decode).map (·, rest)
    cases items.mapM decode with
    | none => rfl
    | some l =>
      rw [Option.map_some, Option.bind_some, hclose]
      rfl
  | number h =>
    rw [if_neg (h.head_ne rfl (by decide))]
    rfl
  | _ => rfl

theorem listOf?_text (l : List String) : Tree.listOf? Tree.text? (.list (l.map .text)) = some l := by
  change (l.map .text).mapM Tree.text? = some l
  induction l with
  | nil => rfl
  | cons s l ih =>
    rw [List.map_cons, List.mapM_cons, ih]
    rfl

end Schema

end GrammarBatch.Json
