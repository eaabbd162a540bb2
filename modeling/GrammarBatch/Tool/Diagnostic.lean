import GrammarBatch.Log
import GrammarBatch.Text.Lines

/-!
# What the tool says

Each line that the tool prints is an error, a warning or neither.

* `Diagnostic.classify`: the kind of a line, judged by its first tag: `error(` or `warning(` in front, or
  else the word after a colon and a blank, with a blank or a colon behind it. Case does not count, and a
  line that begins with `Error:` has no tag, because that is how a launcher of programs complains;
* `Diagnostic.ofText`: the lines of a text that are not blank, each with its kind;
* `Tally`: how many errors and warnings there were.
-/

namespace GrammarBatch

/-- What kind of line it is. -/
inductive Diagnostic.Kind where
  | error
  | warning
  | info
deriving DecidableEq, Repr

/-- A line that the tool printed. -/
structure Diagnostic where
  kind : Diagnostic.Kind
  line : List Char
deriving DecidableEq, Repr

namespace Diagnostic

/-- The level at which lines of the kind are told. -/
def Kind.level : Kind → Log.Level
  | error => .error
  | warning => .warn
  | info => .info

/-- Whether `needle` stands somewhere in the text. -/
def occursIn (needle : List Char) : List Char → Bool
  | [] => needle.isEmpty
  | c :: cs => needle.isPrefixOf (c :: cs) || occursIn needle cs

/-- Whether the text begins with the word and an opening bracket. -/
def leadsWith (word text : List Char) : Bool := (word ++ ['(']).isPrefixOf text

/-- Whether the word stands somewhere in the text as the tag after a place. -/
def taggedWith (word text : List Char) : Bool :=
  occursIn ([':', ' '] ++ word ++ [' ']) text || occursIn ([':', ' '] ++ word ++ [':']) text

/-- The kind of a line. A tag in front decides first, since the message after it may name either word. -/
def classify (line : List Char) : Kind :=
  let text := (Text.trimStart line).map Char.toLower
  let error := "error".toList
  let warning := "warning".toList
  if leadsWith error text then .error
  else if leadsWith warning text then .warning
  else if taggedWith error text then .error
  else if taggedWith warning text then .warning
  else .info

/-- The lines of a text that are not blank. -/
def ofText (text : List Char) : List Diagnostic :=
  ((Text.lines text).filter (!Text.isBlankLine ·)).map fun line => ⟨classify line, line⟩

/-- The line as a log record. -/
def record (d : Diagnostic) : Log.Record := ⟨d.kind.level, String.ofList d.line⟩

end Diagnostic

/-- How many errors and warnings there were. -/
structure Tally where
  errors : Nat
  warnings : Nat
deriving DecidableEq, Repr

namespace Tally

/-- The tally of the lines. -/
def of (ds : List Diagnostic) : Tally where
  errors := ds.countP (·.kind = .error)
  warnings := ds.countP (·.kind = .warning)

/-- Whether there were no errors. -/
def isSuccess (t : Tally) : Bool := t.errors == 0

end Tally

end GrammarBatch
