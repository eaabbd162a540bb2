import GrammarBatch.Json.Text

/-!
# Writing JSON texts

* `Json.Value`: the values that are written;
* `Value.compact`: a value without blanks;
* `Value.indented`: a value with a line for each element and member, indented by two blanks a level.
-/

namespace GrammarBatch.Json

/-- A value to be written. -/
inductive Value where
  | null
  | flag (b : Bool)
  | number (n : Nat)
  | text (s : String)
  | list (items : List Value)
  /-- An object, its members in the order in which they are written. -/
  | object (members : List (String × Value))

namespace Value

/-- The value of a text that may be missing. -/
def ofText? : Option String → Value
  | none => null
  | some s => text s

/-- The values one after the other with commas between them. -/
def commaSeparated : List (List Char) → List Char
  | [] => []
  | [a] => a
  | a :: rest => a ++ ',' :: commaSeparated rest

mutual

/-- The characters of a value without blanks. -/
def chars : Value → List Char
  | null => "null".toList
  | flag b => (if b then "true" else "false").toList
  | number n => Nat.toDigits 10 n
  | text s => Text.chars s
  | list items => '[' :: commaSeparated (itemChars items) ++ [']']
  | object members => '{' :: commaSeparated (memberChars members) ++ ['}']

/-- The characters of each element. -/
def itemChars : List Value → List (List Char)
  | [] => []
  | v :: vs => v.chars :: itemChars vs

/-- The characters of each member. -/
def memberChars : List (String × Value) → List (List Char)
  | [] => []
  | (key, v) :: ms => (Text.chars key ++ ':' :: v.chars) :: memberChars ms

end

/-- The value without blanks. -/
def compact (v : Value) : String := String.ofList v.chars

/-- The start of a line at a depth. -/
def lineStart (depth : Nat) : List Char := '\n' :: List.replicate (2 * depth) ' '

/-- The parts on lines of their own, between brackets; an empty list stays on its line. -/
def block (opening closing : Char) (depth : Nat) (parts : List (List Char)) : List Char :=
  if parts.isEmpty then [opening, closing]
  else opening :: commaSeparated (parts.map (lineStart (depth + 1) ++ ·)) ++ lineStart depth ++ [closing]

mutual

/-- The characters of a value at a depth, with lines and indentation. -/
def indentedChars (depth : Nat) : Value → List Char
  | list items => block '[' ']' depth (indentedItems (depth + 1) items)
  | object members => block '{' '}' depth (indentedMembers (depth + 1) members)
  | null => "null".toList
  | flag b => (if b then "true" else "false").toList
  | number n => Nat.toDigits 10 n
  | text s => Text.chars s

/-- The characters of each element, with lines and indentation. -/
def indentedItems (depth : Nat) : List Value → List (List Char)
  | [] => []
  | v :: vs => v.indentedChars depth :: indentedItems depth vs

/-- The characters of each member, with lines and indentation. -/
def indentedMembers (depth : Nat) : List (String × Value) → List (List Char)
  | [] => []
  | (key, v) :: ms => (Text.chars key ++ ':' :: ' ' :: v.indentedChars depth) :: indentedMembers depth ms

end

/-- The value with lines and indentation. -/
def indented (v : Value) : String := String.ofList (v.indentedChars 0)

end Value

end GrammarBatch.Json
