import GrammarBatch.Json.Reader

/-!
# JSON strings

* `Text.body`: reads a string after its opening quote;
* `Text.escaped`, `Text.chars`: writes one.

A character past U+FFFF may be written as two escapes, a leading and a trailing surrogate; neither stands
alone. Written strings escape only what must be: quotes, backslashes and control characters.
-/

namespace GrammarBatch.Json.Text

open Reader

/-- The value of a hexadecimal digit. -/
def hexDigit? (c : Char) : Option Nat :=
  if '0' ≤ c ∧ c ≤ '9' then some (c.toNat - '0'.toNat)
  else if 'a' ≤ c ∧ c ≤ 'f' then some (c.toNat - 'a'.toNat + 10)
  else if 'A' ≤ c ∧ c ≤ 'F' then some (c.toNat - 'A'.toNat + 10)
  else none

/-- The number that the next four characters spell in hexadecimal, if they do. -/
def hexNumber? : List Char → Option Nat
  | a :: b :: c :: d :: _ => do
    return (((← hexDigit? a) * 16 + (← hexDigit? b)) * 16 + (← hexDigit? c)) * 16 + (← hexDigit? d)
  | _ => none

/-- Reads the four digits of an escape. -/
def hexNumber : Reader Nat := do
  let s ← get
  if byteCount s < 4 then failAtEnd .endOfText
  else match hexNumber? s with
    | none => failPast 4 .badEscape
    | some n => do
      set (s.drop 4)
      pure n

/-- A surrogate that only the second half of a pair can be. -/
def isTrailing (n : Nat) : Bool := 0xDC00 ≤ n && n ≤ 0xDFFF

/-- A surrogate that only the first half of a pair can be. -/
def isLeading (n : Nat) : Bool := 0xD800 ≤ n && n ≤ 0xDBFF

/-- Takes the given character off, which must come next inside an escape. -/
def partner (c : Char) : Reader Unit := do
  match ← peek with
  | none => failAtEnd .endOfText
  | some d => if d = c then skip else failAhead .cutSurrogate

/-- Reads an escape by number, after its `\u`. -/
def numbered : Reader Char := do
  let n ← hexNumber
  if isTrailing n then failHere .loneSurrogate
  else if isLeading n then do
    partner '\\'
    partner 'u'
    let m ← hexNumber
    if isTrailing m then pure (Char.ofNat ((n - 0xD800) * 0x400 + (m - 0xDC00) + 0x10000))
    else failHere .loneSurrogate
  else pure (Char.ofNat n)

/-- The characters that have a letter of their own after the backslash. -/
def letters : List (Char × Char) :=
  [('"', '"'), ('\\', '\\'), ('/', '/'), ('b', '\x08'), ('f', '\x0c'), ('n', '\n'), ('r', '\r'),
    ('t', '\t')]

/-- Reads an escape after its backslash. -/
def escape : Reader Char := do
  match ← peek with
  | none => failAtEnd .endOfText
  | some c =>
    match letters.lookup c with
    | some d => do
      skip
      pure d
    | none =>
      if c = 'u' then do
        skip
        numbered
      else failAhead .badEscape

/-- Reads characters up to the closing quote, at most `limit` of them. -/
def charsTo (limit : Nat) : Reader (List Char) :=
  match limit with
  | 0 => failAtEnd .endOfText
  | limit + 1 => do
    match ← peek with
    | none => failAtEnd .endOfText
    | some c =>
      if c = '"' then do
        skip
        pure []
      else if c = '\\' then do
        skip
        let d ← escape
        let ds ← charsTo limit
        pure (d :: ds)
      else if c.toNat < 0x20 then failAhead .controlCharacter
      else do
        skip
        let ds ← charsTo limit
        pure (c :: ds)

/-- Reads a string after its opening quote. Each character of it takes at least one of the text. -/
def body : Reader String := do
  let s ← get
  let cs ← charsTo (s.length + 1)
  pure (String.ofList cs)

/-- A hexadecimal digit. -/
def hexChar (n : Nat) : Char := (Nat.toDigits 16 n).headD '0'

/-- How a character is written inside a string. -/
def escaped (c : Char) : List Char :=
  if c = '"' then ['\\', '"']
  else if c = '\\' then ['\\', '\\']
  else if c = '\x08' then ['\\', 'b']
  else if c = '\x0c' then ['\\', 'f']
  else if c = '\n' then ['\\', 'n']
  else if c = '\r' then ['\\', 'r']
  else if c = '\t' then ['\\', 't']
  else if c.toNat < 0x20 then ['\\', 'u', '0', '0', hexChar (c.toNat / 16), hexChar (c.toNat % 16)]
  else [c]

/-- How a string is written. -/
def chars (s : String) : List Char := '"' :: s.toList.flatMap escaped ++ ['"']

end GrammarBatch.Json.Text
