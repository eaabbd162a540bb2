import GrammarBatch.Json.Fault

/-!
# Reading JSON texts

A `Json.Reader` takes characters off the front of a text. The first fault wins, and a text is only read
as far as it takes to find it.

* `Reader.failHere`, `Reader.failAhead`: faults at the next character, and just past its first byte;
* `Reader.fail`, `Reader.located`: faults whose place is settled later, and the reader that settles it;
* `Reader.closing`: a reader and the one for its closing bracket, which runs in any case;
* `Reader.run`: reading a whole text.
-/

namespace GrammarBatch.Json

/-- A reader of values of type `α`. Its state is the unread text. -/
abbrev Reader (α : Type) := EStateM Fault (List Char) α

namespace Reader

/-- A blank between the parts of a text. -/
def isBlank (c : Char) : Bool := c == ' ' || c == '\t' || c == '\n' || c == '\r'

/-- A fault whose place is not known yet. -/
def fail {α : Type} (p : Problem) : Reader α := throw ⟨p, none⟩

/-- A fault at the place reached. -/
def failHere {α : Type} (p : Problem) : Reader α := fun s => .error ⟨p, some (byteCount s)⟩ s

/-- A fault `count` bytes past the place reached, though not past the end. -/
def failPast {α : Type} (count : Nat) (p : Problem) : Reader α :=
  fun s => .error ⟨p, some (byteCount s - count)⟩ s

/-- A fault at the next byte, which counts as seen. -/
def failAhead {α : Type} (p : Problem) : Reader α := failPast 1 p

/-- A fault of the whole rest: the text is too short. -/
def failAtEnd {α : Type} (p : Problem) : Reader α := fun s => .error ⟨p, some 0⟩ s

/-- Settles the place of a fault that has none at the place reached. -/
def located {α : Type} (r : Reader α) : Reader α := fun s =>
  match r s with
  | .ok a s => .ok a s
  | .error ⟨p, none⟩ s => .error ⟨p, some (byteCount s)⟩ s
  | .error f s => .error f s

/-- Runs `close` after `r`, also after a fault of `r`, which stays the one reported. -/
def closing {α : Type} (r : Reader α) (close : Reader Unit) : Reader α := fun s =>
  match r s with
  | .ok a s =>
    match close s with
    | .ok _ s => .ok a s
    | .error f s => .error f s
  | .error f s =>
    match close s with
    | .ok _ s => .error f s
    | .error _ s => .error f s

/-- The next character, which stays unread. -/
def peek : Reader (Option Char) := fun s => .ok s.head? s

/-- Takes one character off. -/
def skip : Reader Unit := fun s => .ok () s.tail

/-- Takes blanks off; then the next character, which stays unread. -/
def next : Reader (Option Char) := fun s =>
  let s := s.dropWhile isBlank
  .ok s.head? s

/-- Takes the given characters off, and refuses others. -/
def word : List Char → Reader Unit
  | [] => pure ()
  | c :: cs => do
    match ← peek with
    | none => failHere .endOfValue
    | some d => if d = c then do skip; word cs else failAhead .badWord

/-- Takes the rest of a text off, in which only blanks may remain. -/
def finish : Reader Unit := do
  match ← next with
  | none => pure ()
  | some _ => failAhead .trailingCharacters

/-- Reads a whole text. -/
def run {α : Type} (r : Reader α) (text : List Char) : Except Fault α :=
  match (do let a ← r; finish; pure a : Reader α) text with
  | .ok a _ => .ok a
  | .error f _ => .error f

end Reader

end GrammarBatch.Json
