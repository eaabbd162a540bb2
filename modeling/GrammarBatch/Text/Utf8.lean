/-!
# Byte strings and the text they hold

File names, arguments and tool output are byte strings, which need not be text.

* `Bytes`, and `Utf8.encode`, `Utf8.decode?`: a text's bytes, and the text of bytes that are one;
* `Utf8.decodeLossy`: the text shown for any bytes. Each longest run of bytes that begins a character
  but does not finish it, and each byte that begins none, is shown as one U+FFFD.

The decoder is a small machine (`Utf8.State`) that reads one byte at a time. A byte below 128 always
leaves it at rest, so the text of a path is the text of its parts joined by the same separators.
-/

namespace GrammarBatch

/-- A string of bytes. -/
abbrev Bytes := List UInt8

namespace Utf8

/-- The bytes of a text. -/
def encode (s : String) : Bytes := s.toUTF8.data.toList

/-- The text that these bytes are, if they are one. -/
def decode? (b : Bytes) : Option String := String.fromUTF8? ⟨b.toArray⟩

/-- What the decoder holds between two bytes. -/
inductive State where
  /-- Between two characters. -/
  | rest
  /-- Inside a character: `more + 1` bytes are to come, the next one from `lo` to `hi`, and `acc`
  holds the bits read so far. -/
  | inside (more : Nat) (lo hi : UInt8) (acc : Nat)

/-- The character shown in place of bytes that are none. -/
def replacement : Char := '\uFFFD'

/-- Reads the first byte of a character: the characters it completes, and the next state. The second
byte is bounded so that overlong forms, surrogates and numbers past U+10FFFF are cut at once. -/
def lead (b : UInt8) : List Char × State :=
  if b < 0x80 then ([Char.ofNat b.toNat], .rest)
  else if b < 0xC2 then ([replacement], .rest)
  else if b < 0xE0 then ([], .inside 0 0x80 0xBF (b.toNat % 32))
  else if b < 0xF0 then
    ([], .inside 1 (if b = 0xE0 then 0xA0 else 0x80) (if b = 0xED then 0x9F else 0xBF) (b.toNat % 16))
  else if b < 0xF5 then
    ([], .inside 2 (if b = 0xF0 then 0x90 else 0x80) (if b = 0xF4 then 0x8F else 0xBF) (b.toNat % 8))
  else ([replacement], .rest)

/-- Reads one byte: the characters it completes, and the next state. -/
def step : State → UInt8 → List Char × State
  | .rest, b => lead b
  | .inside more lo hi acc, b =>
    if lo ≤ b ∧ b ≤ hi then
      let acc := acc * 64 + b.toNat % 64
      match more with
      | 0 => ([Char.ofNat acc], .rest)
      | more + 1 => ([], .inside more 0x80 0xBF acc)
    else
      -- the unfinished character is shown, and the byte starts afresh
      let (cs, s) := lead b
      (replacement :: cs, s)

/-- The characters still owed when the bytes end. -/
def finish : State → List Char
  | .rest => []
  | .inside .. => [replacement]

/-- The characters shown for the bytes, read from state `s` on. -/
def lossy : State → Bytes → List Char
  | s, [] => finish s
  | s, b :: bs => (step s b).1 ++ lossy (step s b).2 bs

/-- The text shown for any bytes. -/
def decodeLossy (b : Bytes) : String := String.ofList (lossy .rest b)

end Utf8

end GrammarBatch
