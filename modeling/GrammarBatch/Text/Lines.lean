/-!
# Blank characters, trimming and lines

* `isBlank`: the characters with the Unicode property White_Space;
* `trimStart`, `isBlankLine`: a text without its leading blanks, and a text of blanks alone;
* `lines`: the lines of a text, without their ends. A line ends at a line feed, and a carriage return
  just before the line feed belongs to the end. The last line needs no end.
-/

namespace GrammarBatch.Text

/-- The characters with the property White_Space. -/
def isBlank (c : Char) : Bool :=
  (0x09 ≤ c.toNat && c.toNat ≤ 0x0D) || c.toNat == 0x20 || c.toNat == 0x85 || c.toNat == 0xA0 ||
    c.toNat == 0x1680 || (0x2000 ≤ c.toNat && c.toNat ≤ 0x200A) || c.toNat == 0x2028 ||
    c.toNat == 0x2029 || c.toNat == 0x202F || c.toNat == 0x205F || c.toNat == 0x3000

/-- The text without its leading blanks. -/
def trimStart (cs : List Char) : List Char := cs.dropWhile isBlank

/-- A text with nothing but blanks. -/
def isBlankLine (cs : List Char) : Bool := cs.all isBlank

/-- The text without one carriage return at its end. -/
def dropReturn (cs : List Char) : List Char :=
  if cs.getLast? = some '\r' then cs.dropLast else cs

/-- The lines of a text. An unfinished last line counts if it is not empty, and keeps its carriage
return. -/
def lines (cs : List Char) : List (List Char) :=
  let pieces := cs.splitOn '\n'
  pieces.dropLast.map dropReturn ++ (pieces.getLast?.toList.filter (!·.isEmpty))

end GrammarBatch.Text
