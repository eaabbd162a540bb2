import GrammarBatch.Json.Number
import GrammarBatch.Json.Text

/-!
# Readers for the forms a value can take

A program that wants a value of a certain form reads it directly, and learns what else stands there only
to report it.

* `Schema.text`, `Schema.flag`, `Schema.word32`, `Schema.optional`, `Schema.listOf`, `Schema.choice`:
  the simple forms;
* `Schema.Member`, `Schema.record`: a record, whose fields may come in any order as the members of an
  object, or in the order of the table as the elements of a list. A field that does not come keeps its
  default, and none may come twice.
-/

namespace GrammarBatch.Json.Schema

open Reader

/-- Reports the value that stands here although another form is wanted. A list or an object stays
unread. -/
def refuse {α : Type} (wanted : String) : Reader α := located do
  let wrong (found : Found) : Reader α := fail (.wrongForm found wanted)
  match ← peek with
  | some 'n' => do word "null".toList; wrong .null
  | some 't' => do word "true".toList; wrong (.flag true)
  | some 'f' => do word "false".toList; wrong (.flag false)
  | some '"' => do
    skip
    let s ← Text.body
    wrong (.text s)
  | some '[' => wrong .list
  | some '{' => wrong .object
  | some c =>
    if c = '-' ∨ c.isDigit then do
      let n ← Number.number
      wrong n
    else failAhead .badValue
  | none => failAhead .badValue

/-- Reads a value that begins with one of the characters that `start` knows; blanks before it go. -/
def value {α : Type} (wanted : String) (start : Char → Option (Reader α)) : Reader α := located do
  match ← next with
  | none => failAhead .endOfValue
  | some c =>
    match start c with
    | some r => r
    | none => refuse wanted

/-- Reads a string and what it stands for. -/
def textOf {α : Type} (wanted : String) (meaning : String → Except Problem α) : Reader α :=
  value wanted fun c =>
    if c = '"' then some do
      skip
      let s ← Text.body
      match meaning s with
      | .ok a => pure a
      | .error p => fail p
    else none

/-- Reads a string. -/
def text : Reader String := textOf "a string" .ok

/-- Reads `true` or `false`. -/
def flag : Reader Bool :=
  value "a boolean" fun c =>
    if c = 't' then some do word "true".toList; pure true
    else if c = 'f' then some do word "false".toList; pure false
    else none

/-- The 32-bit number that was found, if it is one. -/
def word32? : Found → Except Problem UInt32
  | .integer n =>
    if 0 ≤ n ∧ n < Nat.pow 2 32 then .ok (UInt32.ofNat n.toNat) else .error (.outOfBounds (.integer n) "u32")
  | found => .error (.wrongForm found "u32")

/-- Reads a natural number of 32 bits. -/
def word32 : Reader UInt32 :=
  value "u32" fun c =>
    if c = '-' ∨ c.isDigit then some do
      match word32? (← Number.number) with
      | .ok n => pure n
      | .error p => fail p
    else none

/-- Reads `null`. -/
def null : Reader Unit :=
  value "unit" fun c => if c = 'n' then some (word "null".toList) else none

/-- Reads a value, or `null` for none. -/
def optional {α : Type} (r : Reader α) : Reader (Option α) := do
  if (← next) = some 'n' then do
    word "null".toList
    pure none
  else do
    let a ← r
    pure (some a)

/-- Takes off the end of a list. -/
def closeList : Reader Unit := do
  match ← next with
  | none => failAhead .endOfList
  | some c =>
    if c = ']' then skip
    else if c = ',' then do
      skip
      if (← next) = some ']' then failAhead .trailingComma else failAhead .trailingCharacters
    else failAhead .trailingCharacters

/-- Takes off the end of an object. -/
def closeObject : Reader Unit := do
  match ← next with
  | none => failAhead .endOfObject
  | some c =>
    if c = '}' then skip
    else if c = ',' then failAhead .trailingComma
    else failAhead .trailingCharacters

/-- Whether a list has another element, which the text then comes to. -/
def hasElement (first : Bool) : Reader Bool := do
  match ← next with
  | none => failAhead .endOfList
  | some c =>
    if c = ']' then pure false
    else if first then pure true
    else if c = ',' then do
      skip
      match ← next with
      | none => failAhead .endOfValue
      | some d => if d = ']' then failAhead .trailingComma else pure true
    else failAhead .missingListComma

/-- Reads elements, at most `limit` of them. -/
def elements {α : Type} (r : Reader α) (first : Bool) (limit : Nat) : Reader (List α) :=
  match limit with
  | 0 => pure []
  | limit + 1 => do
    if ← hasElement first then do
      let a ← r
      let l ← elements r false limit
      pure (a :: l)
    else pure []

/-- Reads a list. Each element takes at least one character of the text. -/
def listOf {α : Type} (r : Reader α) : Reader (List α) :=
  value "a sequence" fun c =>
    if c = '[' then some do
      skip
      let s ← get
      closing (elements r true s.length) closeList
    else none

/-- Takes off the colon between a name and its value. -/
def colon : Reader Unit := do
  match ← next with
  | none => failAhead .endOfObject
  | some c => if c = ':' then skip else failAhead .missingColon

/-- Whether an object has another member, whose name the text then comes to. -/
def hasMember (first : Bool) : Reader Bool := do
  match ← next with
  | none => failAhead .endOfObject
  | some c =>
    if c = '}' then pure false
    else if first then if c = '"' then pure true else failAhead .badKey
    else if c = ',' then do
      skip
      match ← next with
      | none => failAhead .endOfValue
      | some d =>
        if d = '"' then pure true
        else if d = '}' then failAhead .trailingComma
        else failAhead .badKey
    else failAhead .missingObjectComma

/-- Reads one of several words: as a string, or as the name of the only member of an object, which is
`null`. -/
def choice {α : Type} (choices : List (String × α)) : Reader α := do
  let word := textOf "variant identifier" fun s =>
    match choices.lookup s with
    | some a => .ok a
    | none => .error (.unknownChoice s (choices.map (·.1)))
  match ← next with
  | none => failAhead .endOfValue
  | some '"' => word
  | some '{' => do
    skip
    match ← next with
    | none => failAhead .endOfObject
    | some '"' => pure ()
    | some '}' => failAhead .badValue
    | some _ => failAhead .badKey
    let a ← word
    colon
    null
    match ← next with
    | none => failHere .endOfObject
    | some c => if c = '}' then do skip; pure a else failHere .badValue
  | some _ => failAhead .badValue

/-- A member that gives one field of a record, which is kept in a value of type `σ`. -/
structure Member (σ : Type) where
  /-- The name of the member that gives the field. -/
  key : String
  read : Reader (σ → σ)

/-- The field that `read` reads and `put` puts into the record. -/
def Member.of {σ α : Type} (key : String) (read : Reader α) (put : α → σ → σ) : Member σ :=
  ⟨key, do return put (← read)⟩

/-- Reads the members of an object. `pending` are the fields of `table` that have not come yet. -/
def members {σ : Type} (table : List (Member σ)) (first : Bool) (pending : List (Member σ)) (x : σ) :
    Reader σ := do
  if ← hasMember first then do
    skip
    let key ← Text.body
    match _h : pending.find? (·.key == key) with
    | some f => do
      colon
      let put ← f.read
      members table false (pending.eraseP (·.key == key)) (put x)
    | none =>
      if table.any (·.key == key) then fail (.repeatedField key)
      else fail (.unknownField key (table.map (·.key)))
  else pure x
termination_by pending.length
decreasing_by
  have hf := List.mem_of_find?_eq_some _h
  have hk := List.find?_some _h
  have := List.length_eraseP_of_mem (p := (·.key == key)) hf hk
  have := List.length_pos_of_mem hf
  omega

/-- Reads the fields of the table in order, as far as there are elements. -/
def inOrder {σ : Type} (first : Bool) : List (Member σ) → σ → Reader σ
  | [], x => pure x
  | f :: table, x => do
    if ← hasElement first then do
      let put ← f.read
      inOrder false table (put x)
    else pure x

/-- Reads a record. -/
def record {σ : Type} (name : String) (table : List (Member σ)) (default : σ) : Reader σ :=
  value ("struct " ++ name) fun c =>
    if c = '[' then some do
      skip
      closing (inOrder true table default) closeList
    else if c = '{' then some do
      skip
      closing (members table true table default) closeObject
    else none

end GrammarBatch.Json.Schema
