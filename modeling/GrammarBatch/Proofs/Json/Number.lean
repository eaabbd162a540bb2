import GrammarBatch.Json.Number
import GrammarBatch.Proofs.Json.Text

/-!
# Numbers read back

* `Number.Whole`, `Number.Fraction`, `Number.Exponent`, `Number.Numeral`: how numbers are spelled;
* `Reader.Ends`, `Reader.Delimited`: what may follow a value, with blanks and without;
* `Number.unsigned_whole`: the digits of a natural number are gathered, and what follows decides the rest;
* `Number.gather_digits`, `Number.gather_snd_eq_nil`: digits that fit give their number, and only those;
* **`Number.number_whole`**: a natural number below the bound is read from its digits;
* `Number.number_toDigits`: so one that was written is read again.
-/

namespace GrammarBatch.Json

namespace Reader

variable {rest : List Char}

/-- The text ends, or goes on behind a value. -/
def Delimited (rest : List Char) : Prop := ∀ c ∈ rest.head?, c = ',' ∨ c = ']' ∨ c = '}'

/-- The text ends, or goes on behind a value, perhaps after blanks. -/
def Ends (rest : List Char) : Prop := ∀ c ∈ rest.head?, isBlank c = true ∨ c = ',' ∨ c = ']' ∨ c = '}'

theorem Delimited.ends (h : Delimited rest) : Ends rest := fun c hc => Or.inr (h c hc)

theorem Ends.isDigit_eq_false (h : Ends rest) : ∀ c ∈ rest.head?, c.isDigit = false := by
  intro c hc
  rcases h c hc with hblank | rfl | rfl | rfl
  · simp only [isBlank, Bool.or_eq_true, beq_iff_eq] at hblank
    rcases hblank with ((rfl | rfl) | rfl) | rfl <;> rfl
  · rfl
  · rfl
  · rfl

end Reader

namespace Number

open Reader

variable {c d : Char} {cs rest : List Char} {n significand : Nat} {negative : Bool}

/-! ## Spellings -/

/-- One digit or several. -/
def Digits (cs : List Char) : Prop := cs ≠ [] ∧ ∀ c ∈ cs, c.isDigit = true

/-- The digits of a natural number: no zero stands in front of others. -/
def Whole (cs : List Char) : Prop := Digits cs ∧ (cs.head? = some '0' → cs = ['0'])

/-- A point and digits, or nothing. -/
inductive Fraction : List Char → Prop where
  | none : Fraction []
  | some {digits : List Char} (h : Digits digits) : Fraction ('.' :: digits)

/-- An exponent with its letter, or nothing. -/
inductive Exponent : List Char → Prop where
  | none : Exponent []
  | some {e : Char} {sign digits : List Char} (he : e = 'e' ∨ e = 'E')
    (hs : sign = [] ∨ sign = ['+'] ∨ sign = ['-']) (hd : Digits digits) : Exponent (e :: (sign ++ digits))

/-- The characters spell a number. -/
inductive Numeral : List Char → Prop where
  | positive {whole frac exp : List Char} (hw : Whole whole) (hf : Fraction frac) (he : Exponent exp) :
    Numeral (whole ++ (frac ++ exp))
  | negative {whole frac exp : List Char} (hw : Whole whole) (hf : Fraction frac) (he : Exponent exp) :
    Numeral ('-' :: (whole ++ (frac ++ exp)))

theorem Whole.exists_cons (h : Whole cs) : ∃ c cs', cs = c :: cs' ∧ c.isDigit = true := by
  obtain ⟨c, cs', rfl⟩ := List.exists_cons_of_ne_nil h.1.1
  exact ⟨c, cs', rfl, h.1.2 c List.mem_cons_self⟩

theorem Numeral.exists_cons (h : Numeral cs) : ∃ c cs', cs = c :: cs' ∧ (c = '-' ∨ c.isDigit = true) := by
  cases h with
  | positive hw =>
    obtain ⟨c, whole, rfl, hc⟩ := hw.exists_cons
    exact ⟨c, _, rfl, Or.inr hc⟩
  | negative => exact ⟨'-', _, rfl, Or.inl rfl⟩

theorem Numeral.head_ne (h : Numeral (c :: cs)) (hd : d.isDigit = false) (hm : d ≠ '-') :
    c ≠ d := by
  obtain ⟨_, _, hcons, hc⟩ := h.exists_cons
  cases hcons
  rintro rfl
  rcases hc with rfl | hc
  · exact hm rfl
  · rw [hc] at hd
    cases hd

theorem head?_toDigits (hn : n ≠ 0) : (Nat.toDigits 10 n).head? ≠ some '0' := by
  have hsmall : ∀ n < 10, n ≠ 0 → [Nat.digitChar n].head? ≠ some '0' := by decide
  induction n using Nat.strongRecOn with
  | ind n ih =>
    by_cases hlt : n < 10
    · rw [Nat.toDigits_of_lt_base hlt]
      exact hsmall n hlt hn
    · have hq : n / 10 ≠ 0 := by omega
      rw [Nat.toDigits_of_base_le (by decide) (Nat.le_of_not_lt hlt),
        List.head?_append_of_ne_nil _ Nat.toDigits_ne_nil]
      exact ih (n / 10) (by omega) hq

theorem whole_toDigits (n : Nat) : Whole (Nat.toDigits 10 n) := by
  refine ⟨⟨Nat.toDigits_ne_nil, fun c hc => ?_⟩, fun hz => ?_⟩
  · exact Nat.isDigit_of_mem_toDigits (by decide) (by decide) hc
  · by_cases hn : n = 0
    · rw [hn]
      rfl
    · exact absurd hz (head?_toDigits hn)

theorem exists_toDigits (n : Nat) : ∃ c cs, Nat.toDigits 10 n = c :: cs ∧ c.isDigit = true :=
  (whole_toDigits n).exists_cons

/-! ## Digits -/

theorem le_ofDigitChars (cs : List Char) (init : Nat) : init ≤ Nat.ofDigitChars 10 cs init := by
  have hpos : 0 < 10 ^ cs.length := Nat.pow_pos (by decide)
  rw [Nat.ofDigitChars_eq_ofDigitChars_zero]
  calc init ≤ 10 ^ cs.length * init := Nat.le_mul_of_pos_left init hpos
    _ ≤ _ := Nat.le_add_right _ _

theorem gather_digits (hcs : ∀ c ∈ cs, c.isDigit = true) (h : Nat.ofDigitChars 10 cs significand < bound) :
    gather significand (cs.filterMap digit?) = (Nat.ofDigitChars 10 cs significand, []) := by
  induction cs generalizing significand with
  | nil => rfl
  | cons c cs ih =>
    have hc : digit? c = some (c.toNat - '0'.toNat) := if_pos (hcs c List.mem_cons_self)
    rw [Nat.ofDigitChars_cons, Nat.mul_comm] at h ⊢
    have hfits := Nat.lt_of_le_of_lt (le_ofDigitChars cs _) h
    rw [List.filterMap_cons_some hc, gather, if_pos hfits]
    exact ih (fun d hd => hcs d (List.mem_cons_of_mem c hd)) h

/-- Where no digit is left, they all fit. -/
theorem gather_snd_eq_nil (hcs : ∀ c ∈ cs, c.isDigit = true) (hs : significand < bound)
    (h : (gather significand (cs.filterMap digit?)).2 = []) : Nat.ofDigitChars 10 cs significand < bound := by
  induction cs generalizing significand with
  | nil => exact hs
  | cons c cs ih =>
    have hc : digit? c = some (c.toNat - '0'.toNat) := if_pos (hcs c List.mem_cons_self)
    rw [List.filterMap_cons_some hc, gather] at h
    split at h
    · rw [Nat.ofDigitChars_cons, Nat.mul_comm]
      exact ih (fun d hd => hcs d (List.mem_cons_of_mem c hd)) ‹_› h
    · cases h

theorem takeDigits_append (hcs : ∀ c ∈ cs, c.isDigit = true) (hrest : ∀ c ∈ rest.head?, c.isDigit = false) :
    takeDigits (cs ++ rest) = .ok (cs.filterMap digit?) rest := by
  have hstop : rest.takeWhile Char.isDigit = [] ∧ rest.dropWhile Char.isDigit = rest := by
    cases rest with
    | nil => exact ⟨rfl, rfl⟩
    | cons c rest => simp [hrest c rfl]
  rw [takeDigits, digits, List.takeWhile_append_of_pos hcs, List.dropWhile_append_of_pos hcs, hstop.1, hstop.2,
    List.append_nil]

/-! ## Numbers -/

/-- How a number goes on behind its digits: `gathered` are the significand and the digits that were left. -/
def ending (negative : Bool) (gathered : Nat × List Nat) : Reader Found := do
  match ← peek with
  | some '.' => fraction negative gathered.1 gathered.2.length
  | some 'e' | some 'E' => exponent negative gathered.1 gathered.2.length
  | _ =>
    if gathered.2.isEmpty then integer negative gathered.1
    else scaled negative gathered.1 gathered.2.length

theorem unsigned_whole (hcs : Whole cs) (hrest : ∀ c ∈ rest.head?, c.isDigit = false) :
    unsigned negative (cs ++ rest) = ending negative (gather 0 (cs.filterMap digit?)) rest := by
  have htake := takeDigits_append hcs.1.2 hrest
  have hzero : ¬ (cs.head? = some '0' ∧ 1 < (cs.filterMap digit?).length) := by
    rintro ⟨hz, hlen⟩
    rw [hcs.2 hz] at hlen
    exact absurd hlen (by decide)
  obtain ⟨c, cs, rfl, hdigit⟩ := hcs.exists_cons
  rw [List.head?_cons, Option.some.injEq] at hzero
  rw [List.cons_append] at htake ⊢
  change (if !c.isDigit then failAhead .badNumber else _ : Reader Found) _ = _
  rw [if_neg (by simp [hdigit]), bind_ok _ htake, if_neg hzero]
  rfl

theorem number_of_whole (hcs : Whole cs) (s : List Char) : number (cs ++ s) = unsigned false (cs ++ s) := by
  obtain ⟨c, cs, rfl, hdigit⟩ := hcs.exists_cons
  have hminus : some c ≠ some '-' := by
    rintro h
    cases h
    cases hdigit
  change (if some c = some '-' then _ else unsigned false : Reader Found) (c :: cs ++ s) = _
  rw [if_neg hminus]

/-- A number that ends behind its digits is an integer, if they fit. -/
theorem ending_of_ends (hrest : Ends rest) (gathered : Nat × List Nat) : ending negative gathered rest =
    (if gathered.2.isEmpty then integer negative gathered.1
      else scaled negative gathered.1 gathered.2.length) rest := by
  cases rest with
  | nil => rfl
  | cons d rest =>
    rcases hrest d rfl with hblank | rfl | rfl | rfl
    · simp only [isBlank, Bool.or_eq_true, beq_iff_eq] at hblank
      rcases hblank with ((rfl | rfl) | rfl) | rfl <;> rfl
    · rfl
    · rfl
    · rfl

/-- **A natural number is read from its digits.** -/
theorem number_whole (hcs : Whole cs) (hn : Nat.ofDigitChars 10 cs 0 < bound) (hrest : Ends rest) :
    number (cs ++ rest) = .ok (.integer (Nat.ofDigitChars 10 cs 0)) rest := by
  rw [number_of_whole hcs, unsigned_whole hcs hrest.isDigit_eq_false, gather_digits hcs.1.2 hn,
    ending_of_ends hrest]
  rfl

theorem number_toDigits (hn : n < bound) (hrest : Delimited rest) :
    number (Nat.toDigits 10 n ++ rest) = .ok (.integer n) rest := by
  have hread := number_whole (whole_toDigits n) (by rwa [Nat.ofDigitChars_ten_toDigits]) hrest.ends
  rwa [Nat.ofDigitChars_ten_toDigits] at hread

end Number

end GrammarBatch.Json
