import GrammarBatch.Decimal.Shortest
import GrammarBatch.Text.Quoted
import GrammarBatch.Text.Utf8

/-!
# What can be wrong with a JSON text

* `Json.Found`: what stood in a text where something else was wanted;
* `Json.Problem`, `Json.Problem.message`: what is wrong, and how it is told;
* `Json.Fault`: a problem and where it lies, if that is known yet;
* `Json.Fault.message`: the problem with its line and column in the whole text.

A place is kept as the number of bytes that were still unread there, which needs no counting while the
text is read. The line and the column are counted from the whole text, the column in bytes.
-/

namespace GrammarBatch.Json

/-- What a value is that does not have the wanted form. -/
inductive Found where
  | null
  | flag (b : Bool)
  | integer (n : Int)
  | fraction (x : Binary64)
  | text (s : String)
  /-- A list, of which only the beginning was seen. -/
  | list
  | object

/-- How a value of another form is told. -/
def Found.message : Found → String
  | null => "null"
  | flag b => "boolean `" ++ (if b then "true" else "false") ++ "`"
  | integer n => "integer `" ++ toString n ++ "`"
  | fraction x => "floating point `" ++ Shortest.text x ++ "`"
  | text s => "string " ++ Text.quoted s
  | list => "sequence"
  | object => "map"

/-- What is wrong with a text. -/
inductive Problem where
  | endOfList
  | endOfObject
  | endOfText
  /-- The text ends where a value or a part of one must come. -/
  | endOfValue
  | missingColon
  | missingListComma
  | missingObjectComma
  | badWord
  | badValue
  | badEscape
  | badNumber
  | hugeNumber
  | controlCharacter
  | badKey
  /-- A surrogate escape without its partner. -/
  | loneSurrogate
  /-- A surrogate escape that no second escape follows. -/
  | cutSurrogate
  | trailingComma
  /-- Something follows where the text, a list or an object must end. -/
  | trailingCharacters
  /-- A value of another form than the one wanted. -/
  | wrongForm (found : Found) (wanted : String)
  /-- A value of the right form that is out of bounds. -/
  | outOfBounds (found : Found) (wanted : String)
  | unknownField (name : String) (known : List String)
  | unknownChoice (name : String) (known : List String)
  | repeatedField (name : String)

/-- A word between backticks. -/
def ticked (s : String) : String := "`" ++ s ++ "`"

/-- How several possible words are told. -/
def oneOf : List String → String
  | [a] => ticked a
  | [a, b] => ticked a ++ " or " ++ ticked b
  | words => "one of " ++ ", ".intercalate (words.map ticked)

/-- How a problem is told. -/
def Problem.message : Problem → String
  | endOfList => "EOF while parsing a list"
  | endOfObject => "EOF while parsing an object"
  | endOfText => "EOF while parsing a string"
  | endOfValue => "EOF while parsing a value"
  | missingColon => "expected `:`"
  | missingListComma => "expected `,` or `]`"
  | missingObjectComma => "expected `,` or `\x7d`"
  | badWord => "expected ident"
  | badValue => "expected value"
  | badEscape => "invalid escape"
  | badNumber => "invalid number"
  | hugeNumber => "number out of range"
  | controlCharacter => "control character (\\u0000-\\u001F) found while parsing a string"
  | badKey => "key must be a string"
  | loneSurrogate => "lone leading surrogate in hex escape"
  | cutSurrogate => "unexpected end of hex escape"
  | trailingComma => "trailing comma"
  | trailingCharacters => "trailing characters"
  | wrongForm found wanted => "invalid type: " ++ found.message ++ ", expected " ++ wanted
  | outOfBounds found wanted => "invalid value: " ++ found.message ++ ", expected " ++ wanted
  | unknownField name known => "unknown field " ++ ticked name ++ ", expected " ++ oneOf known
  | unknownChoice name known => "unknown variant " ++ ticked name ++ ", expected " ++ oneOf known
  | repeatedField name => "duplicate field " ++ ticked name

/-- A problem and its place. -/
structure Fault where
  problem : Problem
  /-- How many bytes were unread at the place, once it is known. -/
  unread : Option Nat

/-- The number of bytes of a text. -/
def byteCount (cs : List Char) : Nat := (cs.map Char.utf8Size).foldl (· + ·) 0

/-- The line and the column after these bytes: lines count from 1, and the column is the number of bytes
since the line began. -/
def position (read : Bytes) : Nat × Nat :=
  (read.count 0x0A + 1, (read.reverse.takeWhile (· != 0x0A)).length)

/-- The fault, told with its place in the whole text. -/
def Fault.message (whole : List Char) (f : Fault) : String :=
  let bytes := Utf8.encode (String.ofList whole)
  let (line, column) := position (bytes.take (bytes.length - f.unread.getD 0))
  f.problem.message ++ " at line " ++ toString line ++ " column " ++ toString column

end GrammarBatch.Json
