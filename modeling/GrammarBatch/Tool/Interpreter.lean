import GrammarBatch.Path.Basic

/-!
# Scripts and their interpreters

A script is run by the program that its first line names after `#!`: blanks, the path of the interpreter,
and all that follows as one argument, without the blanks around it.

* `Interpreter.ofScript?`: the interpreter that the beginning of a file names.

Only the first `headLength` bytes are looked at, and bytes past the end of a shorter file read as zero. A
line that is longer is cut off there, though never inside the path. A zero ends the path and the argument.
-/

namespace GrammarBatch

/-- What runs a script. -/
structure Interpreter where
  program : Path
  /-- What it is given in front of the script. -/
  args : List Bytes
deriving DecidableEq

namespace Interpreter

/-- The number of bytes that are looked at. -/
def headLength : Nat := 256

/-- A blank inside the line. -/
def isBlank (b : UInt8) : Bool := b == 0x20 || b == 0x09

/-- Whether the byte ends the path of the interpreter. -/
def endsPath (b : UInt8) : Bool := isBlank b || b == 0

/-- The bytes without the blanks at the end. -/
def trimEnd (b : Bytes) : Bytes := (b.reverse.dropWhile isBlank).reverse

/-- The first line after the two bytes that mark a script. -/
def line? (content : Bytes) : Option Bytes :=
  let head := content.take headLength ++ List.replicate (headLength - content.length) 0
  let rest := head.drop 2
  if head.take 2 ≠ Utf8.encode "#!" then none
  else if rest.contains 0x0A then some (trimEnd (rest.takeWhile (· != 0x0A)))
  else if (rest.dropWhile isBlank).any endsPath then some (trimEnd rest.dropLast)
  else none

/-- The argument that follows the path. -/
def argumentsIn (afterPath : Bytes) : List Bytes :=
  if afterPath.head?.any isBlank then
    match afterPath.dropWhile isBlank with
    | [] => []
    | arg => [arg.takeWhile (· != 0)]
  else []

/-- The interpreter that a file names, if it is a script. -/
def ofScript? (content : Bytes) : Option Interpreter := do
  match (← line? content).dropWhile isBlank with
  | [] => none
  | line => some ⟨⟨line.takeWhile (!endsPath ·)⟩, argumentsIn (line.dropWhile (!endsPath ·))⟩

end Interpreter

end GrammarBatch
