import GrammarBatch.Text.Unprinted

/-!
# Quoted texts in messages

`quoted` writes a text between double quotes, so that its ends and every character can be seen: a
quote and a backslash follow a backslash, tab, line feed, carriage return and the zero character have
letters, and what has no safe printed form is given by its number in lower-case hexadecimal.
-/

namespace GrammarBatch.Text

/-- The hexadecimal digits of a number, in lower case. -/
def hex (n : Nat) : String := String.ofList (Nat.toDigits 16 n)

/-- The form of one character between quotes. -/
def quotedChar (c : Char) : String :=
  if c = '"' then "\\\""
  else if c = '\\' then "\\\\"
  else if c = '\t' then "\\t"
  else if c = '\n' then "\\n"
  else if c = '\r' then "\\r"
  else if c.toNat = 0 then "\\0"
  else if isUnprinted c then "\\u\x7b" ++ hex c.toNat ++ "\x7d"
  else String.singleton c

/-- The text between double quotes. -/
def quoted (s : String) : String :=
  "\"" ++ String.join (s.toList.map quotedChar) ++ "\""

end GrammarBatch.Text
