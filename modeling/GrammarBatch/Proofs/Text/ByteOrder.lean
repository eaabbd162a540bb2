import GrammarBatch.Text.Utf8
import Mathlib

/-!
# The order of texts and the order of their bytes

Texts are ordered by their characters. That is the order of their bytes, too.

* `Utf8.Below`: two byte strings differ somewhere, and the first byte in which they do is smaller in one;
* `Utf8.below_encodeChar`: so it is for the bytes of two characters;
* **`Utf8.encode_lt_encode_iff`**: a text is before another one exactly where its bytes are.
-/

namespace GrammarBatch.Utf8

/-- The first byte in which the two differ is there in both of them, and is smaller in the first. -/
def Below : Bytes → Bytes → Prop
  | x :: a, y :: b => x < y ∨ x = y ∧ Below a b
  | _, _ => False

theorem append_lt_append_of_below {a b : Bytes} (h : Below a b) (a' b' : Bytes) : a ++ a' < b ++ b' := by
  induction a generalizing b with
  | nil => exact h.elim
  | cons x a ih =>
    cases b with
    | nil => exact h.elim
    | cons y b =>
      rw [List.cons_append, List.cons_append, List.cons_lt_cons_iff]
      exact h.imp_right fun h => ⟨h.1, ih h.2⟩

theorem below_encodeChar {c d : Char} (h : c < d) :
    Below (String.utf8EncodeChar c) (String.utf8EncodeChar d) := by
  have hlt : c.val.toNat < d.val.toNat := UInt32.lt_iff_toNat_lt.1 h
  have hd : d.val.toNat < 0x110000 := by
    rcases d.valid with h | h <;> omega
  have h12 (v : Nat) : v / 4096 = v / 64 / 64 := by omega
  have h18 (v : Nat) : v / 262144 = v / 64 / 64 / 64 := by omega
  unfold String.utf8EncodeChar
  dsimp only
  -- one case for every two lengths: the first bytes differ unless the lengths are the same
  split_ifs <;>
    simp only [Below, UInt8.lt_iff_toNat_lt, ← UInt8.toNat_inj, UInt8.toNat_ofNat', and_false, or_false, h12,
      h18] <;>
    omega

theorem encodeChar_ne_nil (c : Char) : String.utf8EncodeChar c ≠ [] := by
  unfold String.utf8EncodeChar
  dsimp only
  split_ifs <;> exact List.cons_ne_nil _ _

theorem encode_ofList (l : List Char) : encode (String.ofList l) = l.flatMap String.utf8EncodeChar := by
  simp [encode, String.toUTF8, List.utf8Encode]

theorem flatMap_lt_flatMap {a b : List Char} (h : a < b) :
    a.flatMap String.utf8EncodeChar < b.flatMap String.utf8EncodeChar := by
  induction h with
  | @nil c b =>
    rw [List.flatMap_nil, List.flatMap_cons]
    obtain ⟨x, l, hl⟩ := List.exists_cons_of_ne_nil (encodeChar_ne_nil c)
    rw [hl]
    exact List.nil_lt_cons x _
  | cons h ih =>
    rw [List.flatMap_cons, List.flatMap_cons]
    exact List.append_left_lt ih
  | rel h =>
    rw [List.flatMap_cons, List.flatMap_cons]
    exact append_lt_append_of_below (below_encodeChar h) _ _

/-- **A text is before another one exactly where its bytes are.** -/
theorem encode_lt_encode_iff {s t : String} : encode s < encode t ↔ s < t := by
  have hmono {s t : String} (h : s < t) : encode s < encode t := by
    rw [← String.ofList_toList (s := s), ← String.ofList_toList (s := t), encode_ofList, encode_ofList]
    exact flatMap_lt_flatMap (String.lt_iff_toList_lt.1 h)
  refine ⟨fun h => ?_, hmono⟩
  rcases lt_trichotomy s t with hst | rfl | hts
  · exact hst
  · exact absurd h (List.lt_irrefl _)
  · exact absurd h (List.lt_asymm (hmono hts))

end GrammarBatch.Utf8
