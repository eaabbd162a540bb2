import GrammarBatch.Text.Utf8
import Mathlib

/-!
# What bytes look like as text

Below 128 bytes and characters are the same thing, whatever stands around them.

* `Utf8.State.Sound`: what a state promises about the character that is being read, kept by every step;
* **`Utf8.lossy_append_cons`**: a byte below 128 cuts the bytes, and the text with them;
* **`Utf8.mem_lossy`**, **`Utf8.lossy_eq_iff`**: characters below 128 are shown for the bytes of that number
  alone, and a text of such characters for no other bytes;
* `Utf8.decode?_eq_some_iff`: bytes are one text at most.
-/

namespace GrammarBatch.Utf8

variable {s : State} {b : UInt8} {c : Char}

/-- Every number that can still be completed is a character past the first 128. -/
def State.Sound : State → Prop
  | .rest => True
  | .inside more lo hi acc => 0x80 ≤ lo.toNat ∧ hi.toNat ≤ 0xBF ∧
    ∀ n, (acc * 64 + lo.toNat - 0x80) * 64 ^ more ≤ n → n < (acc * 64 + hi.toNat - 0x7F) * 64 ^ more →
      n.isValidChar ∧ 0x80 ≤ n

theorem sound_rest : State.rest.Sound := trivial

theorem toNat_ofNat_of_valid {n : Nat} (h : n.isValidChar) : (Char.ofNat n).toNat = n := by
  rw [Char.ofNat, dif_pos h]
  rfl

theorem toNat_ofNat_byte (hb : b < 0x80) : (Char.ofNat b.toNat).toNat = b.toNat := by
  have h : b.toNat < 0x80 := UInt8.lt_iff_toNat_lt.1 hb
  exact toNat_ofNat_of_valid (Or.inl (by omega))

theorem ofNat_byte_eq_iff (hb : b < 0x80) (hc : c.toNat < 0x80) :
    Char.ofNat b.toNat = c ↔ b = UInt8.ofNat c.toNat := by
  constructor
  · rintro rfl
    rw [toNat_ofNat_byte hb, UInt8.ofNat_toNat]
  · rintro rfl
    rw [UInt8.toNat_ofNat_of_lt' (Nat.lt_trans hc (by decide)), Char.ofNat_toNat]

/-! ## One step -/

theorem toNat_lt_of_lt {k : UInt8} (h : b < k) : b.toNat < k.toNat := UInt8.lt_iff_toNat_lt.1 h

theorem le_toNat_of_not_lt {k : UInt8} (h : ¬ b < k) : k.toNat ≤ b.toNat :=
  Nat.le_of_not_lt fun hlt => h (UInt8.lt_iff_toNat_lt.2 hlt)

theorem toNat_ite (k : UInt8) (x y : UInt8) :
    (if b = k then x else y).toNat = if b.toNat = k.toNat then x.toNat else y.toNat := by
  rw [apply_ite UInt8.toNat]
  simp only [UInt8.toNat_inj]

theorem sound_lead (b : UInt8) : (lead b).2.Sound := by
  unfold lead
  split
  · trivial
  split
  · trivial
  rename_i hC2
  have hC2 : 0xC2 ≤ b.toNat := le_toNat_of_not_lt hC2
  split
  · rename_i hE0
    have hE0 : b.toNat < 0xE0 := toNat_lt_of_lt hE0
    refine ⟨by decide, by decide, fun n hn hn' => ?_⟩
    simp only [UInt8.reduceToNat, Nat.pow_zero] at hn hn'
    unfold Nat.isValidChar
    omega
  rename_i hE0
  have hE0 : 0xE0 ≤ b.toNat := le_toNat_of_not_lt hE0
  split
  · rename_i hF0
    have hF0 : b.toNat < 0xF0 := toNat_lt_of_lt hF0
    -- `0xE0` and `0xED` bound the second byte, or the character would be overlong or a surrogate
    refine ⟨?_, ?_, fun n hn hn' => ?_⟩
    · rw [toNat_ite]
      split <;> decide
    · rw [toNat_ite]
      split <;> decide
    · simp only [toNat_ite, UInt8.reduceToNat, Nat.pow_one] at hn hn'
      unfold Nat.isValidChar
      split at hn <;> split at hn' <;> omega
  rename_i hF0
  have hF0 : 0xF0 ≤ b.toNat := le_toNat_of_not_lt hF0
  split
  · rename_i hF5
    have hF5 : b.toNat < 0xF5 := toNat_lt_of_lt hF5
    -- `0xF0` and `0xF4` likewise, or it would be overlong or past the last character
    refine ⟨?_, ?_, fun n hn hn' => ?_⟩
    · rw [toNat_ite]
      split <;> decide
    · rw [toNat_ite]
      split <;> decide
    · simp only [toNat_ite, UInt8.reduceToNat, Nat.reducePow] at hn hn'
      unfold Nat.isValidChar
      split at hn <;> split at hn' <;> omega
  · trivial

/-- A byte that a character can go on with leaves the bits read so far in its range. -/
theorem sound_inside_step {more : Nat} {lo hi : UInt8} {acc : Nat}
    (h : (State.inside (more + 1) lo hi acc).Sound) (hlo : lo ≤ b) (hhi : b ≤ hi) :
    (State.inside more 0x80 0xBF (acc * 64 + b.toNat % 64)).Sound := by
  obtain ⟨h80, hBF, hn⟩ := h
  have hlo : lo.toNat ≤ b.toNat := UInt8.le_iff_toNat_le.1 hlo
  have hhi : b.toNat ≤ hi.toNat := UInt8.le_iff_toNat_le.1 hhi
  refine ⟨by decide, by decide, fun n hfirst hlast => hn n ?_ ?_⟩
  · refine Nat.le_trans ?_ hfirst
    rw [Nat.pow_succ', ← Nat.mul_assoc]
    refine Nat.mul_le_mul_right _ ?_
    simp only [UInt8.reduceToNat]
    omega
  · refine Nat.lt_of_lt_of_le hlast ?_
    rw [Nat.pow_succ', ← Nat.mul_assoc]
    refine Nat.mul_le_mul_right _ ?_
    simp only [UInt8.reduceToNat]
    omega

theorem sound_step (h : s.Sound) (b : UInt8) : (step s b).2.Sound := by
  cases s with
  | rest => exact sound_lead b
  | inside more lo hi acc =>
    by_cases hb : lo ≤ b ∧ b ≤ hi
    · cases more with
      | zero =>
        rw [step, if_pos hb]
        trivial
      | succ more =>
        rw [step, if_pos hb]
        exact sound_inside_step h hb.1 hb.2
    · rw [step, if_neg hb]
      exact sound_lead b

theorem step_ascii (h : s.Sound) (hb : b < 0x80) :
    step s b = (finish s ++ [Char.ofNat b.toNat], .rest) := by
  have hlead : lead b = ([Char.ofNat b.toNat], .rest) := if_pos hb
  cases s with
  | rest => exact hlead
  | inside more lo hi acc =>
    have hlo : ¬ (lo ≤ b ∧ b ≤ hi) := by
      rintro ⟨hle, -⟩
      have hb := toNat_lt_of_lt hb
      have hle := UInt8.le_iff_toNat_le.1 hle
      have h80 := h.1
      simp only [UInt8.reduceToNat] at hb
      omega
    rw [step, if_neg hlo, hlead]
    rfl

/-- What is read last can be completed to a character past the first 128 only. -/
theorem le_toNat_of_last {lo hi : UInt8} {acc : Nat} (h : (State.inside 0 lo hi acc).Sound) (hlo : lo ≤ b)
    (hhi : b ≤ hi) : 0x80 ≤ (Char.ofNat (acc * 64 + b.toNat % 64)).toNat := by
  obtain ⟨h80, hBF, hn⟩ := h
  have hlo : lo.toNat ≤ b.toNat := UInt8.le_iff_toNat_le.1 hlo
  have hhi : b.toNat ≤ hi.toNat := UInt8.le_iff_toNat_le.1 hhi
  obtain ⟨hvalid, hle⟩ := hn (acc * 64 + b.toNat % 64) (by omega) (by omega)
  rw [toNat_ofNat_of_valid hvalid]
  exact hle

theorem lt_of_mem_lead (hc : c ∈ (lead b).1) (hlt : c.toNat < 0x80) : b < 0x80 ∧ c = Char.ofNat b.toNat := by
  have hrep : c ∉ [replacement] := by
    rw [List.mem_singleton]
    rintro rfl
    exact absurd hlt (by decide)
  unfold lead at hc
  split at hc
  · rename_i hb
    exact ⟨hb, List.mem_singleton.1 hc⟩
  split at hc
  · exact absurd hc hrep
  split at hc
  · cases hc
  split at hc
  · cases hc
  split at hc
  · cases hc
  · exact absurd hc hrep

theorem lt_of_mem_step (h : s.Sound) (hc : c ∈ (step s b).1) (hlt : c.toNat < 0x80) :
    b < 0x80 ∧ c = Char.ofNat b.toNat := by
  cases s with
  | rest => exact lt_of_mem_lead hc hlt
  | inside more lo hi acc =>
    by_cases hb : lo ≤ b ∧ b ≤ hi
    · cases more with
      | zero =>
        rw [step, if_pos hb] at hc
        have hle := le_toNat_of_last h hb.1 hb.2
        rw [← List.mem_singleton.1 hc] at hle
        omega
      | succ more =>
        rw [step, if_pos hb] at hc
        cases hc
    · rw [step, if_neg hb] at hc
      rcases List.mem_cons.1 hc with rfl | hc
      · exact absurd hlt (by decide)
      · exact lt_of_mem_lead hc hlt

/-! ## All the bytes -/

/-- **A byte below 128 cuts the bytes in two, and so does its character the text.** -/
theorem lossy_append_cons (h : s.Sound) (a rest : Bytes) (hb : b < 0x80) :
    lossy s (a ++ b :: rest) = lossy s a ++ Char.ofNat b.toNat :: lossy .rest rest := by
  induction a generalizing s with
  | nil =>
    have hcons : lossy s (b :: rest) = (step s b).1 ++ lossy (step s b).2 rest := rfl
    rw [List.nil_append, hcons, step_ascii h hb, List.append_assoc]
    rfl
  | cons x a ih => rw [List.cons_append, lossy, lossy, ih (sound_step h x), List.append_assoc]

/-- **A character below 128 is shown for no other byte than its own.** -/
theorem mem_lossy (h : s.Sound) {bytes : Bytes} (hc : c ∈ lossy s bytes) (hlt : c.toNat < 0x80) :
    ∃ b ∈ bytes, b < 0x80 ∧ c = Char.ofNat b.toNat := by
  induction bytes generalizing s with
  | nil =>
    cases s with
    | rest => cases hc
    | inside more lo hi acc =>
      obtain rfl := List.mem_singleton.1 hc
      exact absurd hlt (by decide)
  | cons x bytes ih =>
    rw [lossy] at hc
    rcases List.mem_append.1 hc with hc | hc
    · exact ⟨x, List.mem_cons_self, lt_of_mem_step h hc hlt⟩
    · obtain ⟨b, hb, hlt, hc⟩ := ih (sound_step h x) hc
      exact ⟨b, List.mem_cons_of_mem x hb, hlt, hc⟩

theorem exists_lossy_inside {more : Nat} {lo hi : UInt8} {acc : Nat} (h : (State.inside more lo hi acc).Sound)
    (bytes : Bytes) : ∃ c cs, lossy (.inside more lo hi acc) bytes = c :: cs ∧ 0x80 ≤ c.toNat := by
  induction bytes generalizing more lo hi acc with
  | nil => exact ⟨replacement, [], rfl, by decide⟩
  | cons x bytes ih =>
    by_cases hx : lo ≤ x ∧ x ≤ hi
    · cases more with
      | zero =>
        rw [lossy, step, if_pos hx]
        exact ⟨_, _, rfl, le_toNat_of_last h hx.1 hx.2⟩
      | succ more =>
        rw [lossy, step, if_pos hx]
        exact ih (sound_inside_step h hx.1 hx.2)
    · rw [lossy, step, if_neg hx]
      exact ⟨replacement, _, rfl, by decide⟩

theorem lossy_cons_of_lt (hb : b < 0x80) (bytes : Bytes) :
    lossy .rest (b :: bytes) = Char.ofNat b.toNat :: lossy .rest bytes :=
  lossy_append_cons sound_rest [] bytes hb

theorem exists_lossy_cons_of_not_lt (hb : ¬ b < 0x80) (bytes : Bytes) :
    ∃ c cs, lossy .rest (b :: bytes) = c :: cs ∧ 0x80 ≤ c.toNat := by
  have hsound := sound_lead b
  rw [lossy, step]
  unfold lead at hsound ⊢
  rw [if_neg hb] at hsound ⊢
  split
  · exact ⟨replacement, _, rfl, by decide⟩
  rename_i hC2
  rw [if_neg hC2] at hsound
  split
  · rename_i hE0
    rw [if_pos hE0] at hsound
    exact exists_lossy_inside hsound bytes
  rename_i hE0
  rw [if_neg hE0] at hsound
  split
  · rename_i hF0
    rw [if_pos hF0] at hsound
    exact exists_lossy_inside hsound bytes
  rename_i hF0
  rw [if_neg hF0] at hsound
  split
  · rename_i hF5
    rw [if_pos hF5] at hsound
    exact exists_lossy_inside hsound bytes
  · exact ⟨replacement, _, rfl, by decide⟩

/-- **A text of characters below 128 is shown for its own bytes alone.** -/
theorem lossy_eq_iff {bytes : Bytes} {cs : List Char} (h : ∀ c ∈ cs, c.toNat < 0x80) :
    lossy .rest bytes = cs ↔ bytes = cs.map fun c => UInt8.ofNat c.toNat := by
  induction cs generalizing bytes with
  | nil =>
    cases bytes with
    | nil => simp [lossy, finish]
    | cons b bytes =>
      by_cases hb : b < 0x80
      · simp [lossy_cons_of_lt hb]
      · obtain ⟨c, cs, he, -⟩ := exists_lossy_cons_of_not_lt hb bytes
        simp [he]
  | cons c cs ih =>
    have hc := h c List.mem_cons_self
    have hsize : c.toNat < UInt8.size := Nat.lt_trans hc (by decide)
    have ih {rest : Bytes} : lossy .rest rest = cs ↔ rest = cs.map fun c => UInt8.ofNat c.toNat :=
      ih fun x hx => h x (List.mem_cons_of_mem c hx)
    cases bytes with
    | nil => simp [lossy, finish]
    | cons b bytes =>
      by_cases hb : b < 0x80
      · rw [lossy_cons_of_lt hb, List.map_cons, List.cons.injEq, List.cons.injEq, ofNat_byte_eq_iff hb hc, ih]
      · obtain ⟨d, ds, he, hd⟩ := exists_lossy_cons_of_not_lt hb bytes
        have hb' : b ≠ UInt8.ofNat c.toNat := by
          rintro rfl
          refine hb (UInt8.lt_iff_toNat_lt.2 ?_)
          rw [UInt8.toNat_ofNat_of_lt' hsize]
          exact hc
        have hd' : d ≠ c := by
          rintro rfl
          omega
        simp [he, hb', hd']

/-! ## Text and its bytes -/

theorem decode?_encode (s : String) : decode? (encode s) = some s := by
  have h : (⟨(encode s).toArray⟩ : ByteArray) = s.toByteArray := by simp [encode]
  rw [decode?, h, String.fromUTF8?, dif_pos s.isValidUTF8]
  rfl

theorem decode?_eq_some_iff {bytes : Bytes} {s : String} : decode? bytes = some s ↔ bytes = encode s := by
  constructor
  · intro h
    rw [decode?, String.fromUTF8?] at h
    split at h
    · cases h
      simp [encode, String.fromUTF8]
    · cases h
  · rintro rfl
    exact decode?_encode s

end GrammarBatch.Utf8
