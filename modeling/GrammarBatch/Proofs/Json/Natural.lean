import GrammarBatch.Proofs.Json.Given
import GrammarBatch.Proofs.Json.Number

/-!
# Natural numbers among the numbers

A natural number has one spelling: its digits, without a sign, a point or an exponent.

* `Number.Other`: anything but a natural number, which is what a point, an exponent or a minus sign gives;
* **`Number.given_number_eq_integer_iff`**: the numbers that are read as natural ones.
-/

namespace GrammarBatch.Json.Number

open Reader

variable {c : Char} {cs frac exp rest s : List Char} {gathered : Nat × List Nat} {n significand : Nat}
  {negative : Bool} {start : Int}

/-- Anything but a natural number. -/
def Other (f : Found) : Prop := ∀ n : Nat, f ≠ .integer n

theorem yields_scaled : Yields (scaled negative significand start) Other := by
  rw [scaled]
  split
  · exact yields_pure nofun
  · nofun

theorem yields_exponent : Yields (exponent negative significand start) Other := by
  rw [exponent]
  refine yields_then fun _ => yields_then fun sign => ?_
  extract_lets behindSign
  have hbehind (u : Unit) : Yields (behindSign u) Other := by
    refine yields_then fun next => ?_
    split
    · nofun
    · split
      · refine yields_then fun ds => ?_
        split
        · exact yields_scaled
        · split
          · exact yields_then fun _ => nofun
          · exact yields_pure nofun
      · exact yields_failPast _ _
  split
  · exact yields_then hbehind
  · exact hbehind ()

theorem yields_fraction : Yields (fraction negative significand start) Other := by
  rw [fraction]
  refine yields_then fun _ => yields_then fun ds => ?_
  split
  extract_lets used
  split
  · refine yields_then fun next => ?_
    split
    · nofun
    · exact yields_failPast _ _
  · refine yields_then fun next => ?_
    split
    · exact yields_exponent
    · exact yields_exponent
    · exact yields_scaled

/-- Behind a minus sign stands no natural number: minus zero is a fraction. -/
theorem yields_integer_true : Yields (integer true significand) Other := by
  rw [integer, if_neg (by simp)]
  split
  · exact yields_scaled
  · refine yields_pure fun n hn => ?_
    have hcast := Found.integer.inj hn
    omega

theorem yields_unsigned_true : Yields (unsigned true) Other := by
  rw [unsigned]
  refine yields_then fun next => ?_
  split
  · nofun
  · split
    · exact yields_failPast _ _
    · refine yields_then fun ds => ?_
      split
      · exact yields_then fun _ => nofun
      · refine yields_then fun next => ?_
        split
        · exact yields_fraction
        · exact yields_exponent
        · exact yields_exponent
        · split
          · exact yields_integer_true
          · exact yields_scaled

/-- Behind the digits comes nothing, or a point or an exponent. -/
theorem fraction_append_exponent (hf : Fraction frac) (he : Exponent exp) :
    frac ++ exp = [] ∨ ∃ c more, frac ++ exp = c :: more ∧ (c = '.' ∨ c = 'e' ∨ c = 'E') := by
  cases hf with
  | some hd => exact Or.inr ⟨'.', _, rfl, Or.inl rfl⟩
  | none =>
    cases he with
    | none => exact Or.inl rfl
    | @some e sign digits he hs hd => exact Or.inr ⟨e, _, rfl, Or.inr he⟩

theorem other_of_given_ending {f : Found} (hc : c = '.' ∨ c = 'e' ∨ c = 'E')
    (hg : given (ending negative gathered) (c :: rest) = some (f, s)) : Other f := by
  rcases hc with rfl | rfl | rfl
  · exact of_given yields_fraction hg
  · exact of_given yields_exponent hg
  · exact of_given yields_exponent hg

theorem Numeral.whole (h : Numeral cs) (hcs : ∀ c ∈ cs, c.isDigit = true) : Whole cs := by
  cases h with
  | negative => exact absurd (hcs '-' List.mem_cons_self) (by decide)
  | positive hw hf he =>
    rcases fraction_append_exponent hf he with hnil | ⟨c, more, hcons, hc⟩
    · rwa [hnil, List.append_nil]
    · have hdigit := hcs c (by simp [hcons])
      rcases hc with rfl | rfl | rfl <;> cases hdigit

/-- The number that the characters spell, if they are digits. -/
def natural? (cs : List Char) : Option Nat :=
  if cs.all Char.isDigit then some (Nat.ofDigitChars 10 cs 0) else none

theorem natural?_eq_some_iff :
    natural? cs = some n ↔ (∀ c ∈ cs, c.isDigit = true) ∧ Nat.ofDigitChars 10 cs 0 = n := by
  simp [natural?]

theorem natural?_toDigits (n : Nat) : natural? (Nat.toDigits 10 n) = some n :=
  natural?_eq_some_iff.2 ⟨(whole_toDigits n).1.2, Nat.ofDigitChars_ten_toDigits⟩

theorem given_number_whole (hcs : Whole cs) (hrest : Ends rest)
    (hg : given number (cs ++ rest) = some (.integer n, s)) : natural? cs = some n ∧ n < bound ∧ s = rest := by
  by_cases hfits : Nat.ofDigitChars 10 cs 0 < bound
  · rw [given_of_ok (number_whole hcs hfits hrest)] at hg
    cases hg
    exact ⟨natural?_eq_some_iff.2 ⟨hcs.1.2, rfl⟩, hfits, rfl⟩
  · -- digits are left, so the number is a fraction
    have hleft : (gather 0 (cs.filterMap digit?)).2 ≠ [] := fun hnil =>
      hfits (gather_snd_eq_nil hcs.1.2 (by decide) hnil)
    rw [given, number_of_whole hcs, unsigned_whole hcs hrest.isDigit_eq_false, ending_of_ends hrest,
      if_neg (by simpa using hleft)] at hg
    exact (of_given yields_scaled hg n rfl).elim

/-- **What is read as a natural number is spelled by its digits alone, and fits.** -/
theorem given_number_eq_integer_iff (h : Numeral cs) (hrest : Ends rest) :
    given number (cs ++ rest) = some (.integer n, s) ↔ natural? cs = some n ∧ n < bound ∧ s = rest := by
  constructor
  · intro hg
    cases h with
    | negative => exact (of_given yields_unsigned_true hg n rfl).elim
    | positive hw hf he =>
      rcases fraction_append_exponent hf he with hnil | ⟨c, more, hcons, hc⟩
      · rw [hnil, List.append_nil] at hg ⊢
        exact given_number_whole hw hrest hg
      · -- what stands behind the digits is no digit, so the whole number is gathered before it
        have hstop : ∀ d ∈ (c :: (more ++ rest)).head?, d.isDigit = false := by
          rintro d hd
          cases hd
          rcases hc with rfl | rfl | rfl <;> rfl
        rw [hcons, List.append_assoc, List.cons_append, given, number_of_whole hw, unsigned_whole hw hstop] at hg
        exact (other_of_given_ending hc hg n rfl).elim
  · rintro ⟨hcs, hn, rfl⟩
    obtain ⟨hdigits, rfl⟩ := natural?_eq_some_iff.1 hcs
    exact given_of_ok (number_whole (h.whole hdigits) hn hrest)

end GrammarBatch.Json.Number
