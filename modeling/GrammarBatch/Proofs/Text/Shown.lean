import GrammarBatch.Proofs.Text.ByteOrder
import GrammarBatch.Proofs.Text.Utf8
import Mathlib

/-!
# Text is shown as it is

Only bytes that are no text are shown as something else.

* `Utf8.lossy_encodeChar`: a character's bytes are shown as the character, whatever follows;
* **`Utf8.decodeLossy_encode`**: the bytes of a text are shown as the text;
* **`Utf8.count_lossy`**: a character below 128 is shown as often as its byte is there.
-/

namespace GrammarBatch.Utf8

variable {s : State} {c : Char} {lo hi b : UInt8} {acc n : Nat}

/-! ## The bytes of one character -/

theorem lossy_last (hlo : lo ≤ b) (hhi : b ≤ hi) (rest : Bytes) :
    lossy (.inside 0 lo hi acc) (b :: rest) = Char.ofNat (acc * 64 + b.toNat % 64) :: lossy .rest rest := by
  rw [lossy, step, if_pos ⟨hlo, hhi⟩]
  rfl

theorem lossy_next {more : Nat} (hlo : lo ≤ b) (hhi : b ≤ hi) (rest : Bytes) :
    lossy (.inside (more + 1) lo hi acc) (b :: rest) =
      lossy (.inside more 0x80 0xBF (acc * 64 + b.toNat % 64)) rest := by
  rw [lossy, step, if_pos ⟨hlo, hhi⟩]
  rfl

/-- The byte with the last six bits of a number, for a character to go on with. -/
def continuation (n : Nat) : UInt8 := UInt8.ofNat (n % 64 + 128)

theorem toNat_continuation (n : Nat) : (continuation n).toNat = n % 64 + 128 :=
  UInt8.toNat_ofNat_of_lt' (Nat.lt_trans (Nat.add_lt_add_right (Nat.mod_lt n (by decide)) 128) (by decide))

@[simp] theorem toNat_continuation_mod (n : Nat) : (continuation n).toNat % 64 = n % 64 := by
  rw [toNat_continuation]
  omega

theorem le_continuation (h : lo.toNat ≤ n % 64 + 128) : lo ≤ continuation n := by
  rwa [UInt8.le_iff_toNat_le, toNat_continuation]

theorem continuation_le (h : n % 64 + 128 ≤ hi.toNat) : continuation n ≤ hi := by
  rwa [UInt8.le_iff_toNat_le, toNat_continuation]

theorem continuation_bounds (n : Nat) : 0x80 ≤ continuation n ∧ continuation n ≤ 0xBF :=
  ⟨le_continuation (Nat.le_add_left _ _),
    continuation_le (Nat.add_le_add_right (Nat.le_of_lt_succ (Nat.mod_lt n (by decide))) 128)⟩

theorem lossy_lead_two (h : 2 ≤ n) (hn : n < 32) (rest : Bytes) :
    lossy .rest (UInt8.ofNat (n + 192) :: rest) = lossy (.inside 0 0x80 0xBF n) rest := by
  interval_cases n <;> rfl

theorem lossy_lead_three (hn : n < 16) (rest : Bytes) :
    lossy .rest (UInt8.ofNat (n + 224) :: rest) =
      lossy (.inside 1 (if n = 0 then 0xA0 else 0x80) (if n = 13 then 0x9F else 0xBF) n) rest := by
  interval_cases n <;> rfl

theorem lossy_lead_four (hn : n < 5) (rest : Bytes) :
    lossy .rest (UInt8.ofNat (n + 240) :: rest) =
      lossy (.inside 2 (if n = 0 then 0x90 else 0x80) (if n = 4 then 0x8F else 0xBF) n) rest := by
  interval_cases n <;> rfl

theorem encodeChar_eq (c : Char) : String.utf8EncodeChar c =
    if c.toNat ≤ 0x7F then [UInt8.ofNat c.toNat]
    else if c.toNat ≤ 0x7FF then [UInt8.ofNat (c.toNat / 64 + 192), continuation c.toNat]
    else if c.toNat ≤ 0xFFFF then
      [UInt8.ofNat (c.toNat / 4096 + 224), continuation (c.toNat / 64), continuation c.toNat]
    else
      [UInt8.ofNat (c.toNat / 262144 + 240), continuation (c.toNat / 4096), continuation (c.toNat / 64),
        continuation c.toNat] := by
  have hvalid : c.toNat.isValidChar := c.valid
  unfold Nat.isValidChar at hvalid
  unfold String.utf8EncodeChar continuation
  change (if c.toNat ≤ 0x7F then [_] else if c.toNat ≤ 0x7FF then [UInt8.ofNat (c.toNat / 64 % 32 + 192), _]
    else if c.toNat ≤ 0xFFFF then [UInt8.ofNat (c.toNat / 4096 % 16 + 224), _, _]
    else [UInt8.ofNat (c.toNat / 262144 % 8 + 240), _, _, _]) = _
  split_ifs with h1 h2 h3
  · rfl
  · rw [Nat.mod_eq_of_lt (by omega)]
    rfl
  · rw [Nat.mod_eq_of_lt (by omega)]
    rfl
  · rw [Nat.mod_eq_of_lt (by omega)]
    rfl

/-- The bytes of a character are shown as the character, whatever comes behind them. -/
theorem lossy_encodeChar (c : Char) (rest : Bytes) :
    lossy .rest (String.utf8EncodeChar c ++ rest) = c :: lossy .rest rest := by
  have hvalid : c.toNat.isValidChar := c.valid
  unfold Nat.isValidChar at hvalid
  have hbits (n : Nat) := continuation_bounds n
  rw [encodeChar_eq]
  conv_rhs => rw [← Char.ofNat_toNat c]
  split_ifs with h1 h2 h3
  · have hb : (UInt8.ofNat c.toNat).toNat = c.toNat := UInt8.toNat_ofNat_of_lt' (Nat.lt_of_le_of_lt h1 (by decide))
    rw [List.singleton_append, lossy_cons_of_lt, hb]
    rw [UInt8.lt_iff_toNat_lt, hb]
    exact Nat.lt_succ_of_le h1
  · rw [List.cons_append, List.singleton_append, lossy_lead_two (by omega) (by omega),
      lossy_last (hbits _).1 (hbits _).2, toNat_continuation_mod]
    congr 2
    omega
  · rw [List.cons_append, List.cons_append, List.singleton_append, lossy_lead_three (by omega), lossy_next,
      lossy_last (hbits _).1 (hbits _).2, toNat_continuation_mod, toNat_continuation_mod]
    · congr 2
      omega
    -- neither overlong nor a surrogate
    · refine le_continuation ?_
      split_ifs <;> simp only [UInt8.reduceToNat] <;> omega
    · refine continuation_le ?_
      split_ifs <;> simp only [UInt8.reduceToNat] <;> omega
  · rw [List.cons_append, List.cons_append, List.cons_append, List.singleton_append, lossy_lead_four (by omega),
      lossy_next, lossy_next (hbits _).1 (hbits _).2, lossy_last (hbits _).1 (hbits _).2, toNat_continuation_mod,
      toNat_continuation_mod, toNat_continuation_mod]
    · congr 2
      omega
    -- neither overlong nor past the last character
    · refine le_continuation ?_
      split_ifs <;> simp only [UInt8.reduceToNat] <;> omega
    · refine continuation_le ?_
      split_ifs <;> simp only [UInt8.reduceToNat] <;> omega

/-! ## Whole texts -/

/-- **The bytes of a text are shown as the text.** -/
theorem decodeLossy_encode (t : String) : decodeLossy (encode t) = t := by
  have hall (cs : List Char) : lossy .rest (cs.flatMap String.utf8EncodeChar) = cs := by
    induction cs with
    | nil => rfl
    | cons c cs ih => rw [List.flatMap_cons, lossy_encodeChar, ih]
  have ht := encode_ofList t.toList
  rw [String.ofList_toList] at ht
  rw [decodeLossy, ht, hall, String.ofList_toList]

theorem count_finish (s : State) (hc : c.toNat < 0x80) : (finish s).count c = 0 := by
  cases s with
  | rest => rfl
  | inside more lo hi acc =>
    refine List.count_eq_zero.2 fun hm => ?_
    rw [List.mem_singleton.1 hm] at hc
    exact absurd hc (by decide)

/-- **A character below 128 is shown as often as its byte is there.** -/
theorem count_lossy (h : s.Sound) (hc : c.toNat < 0x80) (bytes : Bytes) :
    (lossy s bytes).count c = bytes.count (UInt8.ofNat c.toNat) := by
  induction bytes generalizing s with
  | nil => exact count_finish s hc
  | cons b bytes ih =>
    rw [lossy, List.count_append, ih (sound_step h b), List.count_cons, Nat.add_comm]
    congr 1
    by_cases hb : b < 0x80
    · rw [step_ascii h hb, List.count_append, count_finish s hc, List.count_singleton, Nat.zero_add]
      simp only [beq_iff_eq, ofNat_byte_eq_iff hb hc]
    · have hne : b ≠ UInt8.ofNat c.toNat := by
        rintro rfl
        refine hb (UInt8.lt_iff_toNat_lt.2 ?_)
        rw [UInt8.toNat_ofNat_of_lt' (Nat.lt_trans hc (by decide))]
        exact hc
      rw [if_neg (by simpa using hne), List.count_eq_zero]
      exact fun hm => hb (lt_of_mem_step h hm hc).1

end GrammarBatch.Utf8
