import GrammarBatch.Text.Utf8

/-!
# Names

A `Name` is what a directory can call one of its entries: at least one byte, no slash among them, and
neither `.` nor `..`, which lead elsewhere.
-/

namespace GrammarBatch

/-- The byte that separates the names of a path. -/
def slash : UInt8 := 0x2F

/-- The byte `.`. -/
def dot : UInt8 := 0x2E

/-- The bytes can name an entry of a directory. -/
def IsName (b : Bytes) : Prop := b ≠ [] ∧ slash ∉ b ∧ b ≠ [dot] ∧ b ≠ [dot, dot]

instance (b : Bytes) : Decidable (IsName b) := inferInstanceAs (Decidable (_ ∧ _))

/-- The name of an entry of a directory. -/
structure Name where
  bytes : Bytes
  isName : IsName bytes
deriving DecidableEq

namespace Name

/-- The name with these bytes, if they are one. -/
def ofBytes? (b : Bytes) : Option Name :=
  if h : IsName b then some ⟨b, h⟩ else none

/-- Names are ordered as byte strings. -/
instance : Ord Name where
  compare a b := compare a.bytes b.bytes

/-- The text shown for the name. -/
def display (n : Name) : String := Utf8.decodeLossy n.bytes

/-- The name with the given text; only for texts that are names. -/
def ofString (s : String) (h : IsName (Utf8.encode s) := by decide) : Name := ⟨Utf8.encode s, h⟩

end Name

end GrammarBatch
