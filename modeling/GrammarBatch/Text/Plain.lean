/-!
# Text without terminal control

Where a text is shown on something other than a terminal, control characters go, the white ones excepted,
and so do whole escape sequences of the ECMA-48 kind. A sequence that is never finished swallows the rest.

White space is shown even inside a sequence, with the plain characters that follow it.

* `plain`: such a sequence is over then;
* `plainStream`: such a sequence goes on after those characters, unless one of them takes several bytes.

`emphasised` colours a part of a text. It ends with a sequence of its own, which cuts short one that the
part leaves unfinished.
-/

namespace GrammarBatch.Text

/-- Where a reader of terminal control stands. -/
inductive Control where
  | ground
  | escape
  | escapeIntermediate
  /-- In a control sequence, which a letter or a sign from `@` to `~` ends. -/
  | sequence
  | deviceEntry
  | deviceParameter
  | deviceIntermediate
  /-- In the body of a string that a string terminator ends. -/
  | body
  /-- In an operating system command, which a bell ends. -/
  | command
deriving DecidableEq

/-- The control characters that count as white space. -/
def isWhiteControl (n : Nat) : Bool := n == 0x09 || n == 0x0A || n == 0x0C || n == 0x0D

/-- Whether a string terminator, byte 0x9C, is among the bytes of the character. -/
def holdsTerminator (c : Char) : Bool :=
  ((String.singleton c).toUTF8.data.toList).contains 0x9C

/-- Whether plain text shows the character of this number. -/
def isShown (n : Nat) : Bool := 0x80 ≤ n || (0x20 ≤ n && n ≠ 0x7F) || isWhiteControl n

/-- Reads one character: whether it is shown, and where the reader stands then. White space inside a
sequence leaves it where it is. -/
def Control.step (s : Control) (c : Char) : Bool × Control :=
  let n := c.toNat
  if n = 0x1B then (false, .escape)
  else if n = 0x18 ∨ n = 0x1A then (false, .ground)
  else match s with
    | .ground => (isShown n, .ground)
    | .escape =>
      if isWhiteControl n then (true, .escape)
      else if c = '[' then (false, .sequence)
      else if c = ']' then (false, .command)
      else if c = 'P' then (false, .deviceEntry)
      else if c = 'X' ∨ c = '^' ∨ c = '_' then (false, .body)
      else if 0x20 ≤ n ∧ n ≤ 0x2F then (false, .escapeIntermediate)
      else if 0x30 ≤ n ∧ n ≤ 0x7E then (false, .ground)
      else (false, .escape)
    | .escapeIntermediate =>
      if isWhiteControl n then (true, .escapeIntermediate)
      else if 0x30 ≤ n ∧ n ≤ 0x7E then (false, .ground)
      else (false, .escapeIntermediate)
    | .sequence =>
      if isWhiteControl n then (true, .sequence)
      else if 0x40 ≤ n ∧ n ≤ 0x7E then (false, .ground)
      else (false, .sequence)
    | .deviceEntry =>
      if 0x40 ≤ n ∧ n ≤ 0x7E then (false, .body)
      else if 0x20 ≤ n ∧ n ≤ 0x2F then (false, .deviceIntermediate)
      else if 0x30 ≤ n ∧ n ≤ 0x3F then (false, .deviceParameter)
      else (false, .deviceEntry)
    | .deviceParameter =>
      if (0x40 ≤ n ∧ n ≤ 0x7E) ∨ (0x3C ≤ n ∧ n ≤ 0x3F) then (false, .body)
      else if 0x20 ≤ n ∧ n ≤ 0x2F then (false, .deviceIntermediate)
      else (false, .deviceParameter)
    | .deviceIntermediate =>
      if 0x30 ≤ n ∧ n ≤ 0x7E then (false, .body) else (false, .deviceIntermediate)
    | .body => (false, if holdsTerminator c then .ground else .body)
    | .command => (false, if n = 0x07 then .ground else .command)

/-- A reader of terminal control. -/
structure ControlReader where
  control : Control := .ground
  /-- Whether the character before was shown. -/
  running : Bool := false
deriving DecidableEq

/-- Reads one character: whether it is shown, and the reader after it. `resumes` tells whether a sequence
goes on after white space in it. -/
def ControlReader.step (resumes : Bool) (r : ControlReader) (c : Char) : Bool × ControlReader :=
  if r.running && isShown c.toNat then
    (true, { r with control := if c.toNat < 0x80 then r.control else .ground })
  else
    let (shown, control) := r.control.step c
    (shown, { control := if shown && !resumes then .ground else control, running := shown })

/-- The characters that the reader shows. -/
def shown (resumes : Bool) : ControlReader → List Char → List Char
  | _, [] => []
  | r, c :: cs =>
    let rest := shown resumes (r.step resumes c).2 cs
    if (r.step resumes c).1 then c :: rest else rest

/-- The text as it is shown by itself. -/
def plain (s : String) : String := String.ofList (shown false {} s.toList)

/-- The text as it is shown when it is written to a stream. -/
def plainStream (s : String) : String := String.ofList (shown true {} s.toList)

/-- The text in colour. -/
def emphasised (s : String) : String := "\x1b[33m" ++ s ++ "\x1b[0m"

end GrammarBatch.Text
