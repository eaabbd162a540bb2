import GrammarBatch.Proofs.Glob.Wildcard
import Mathlib.Data.List.Infix

/-!
# The turns of a comparison

The comparison of a glob with a name goes back and forth in both. It comes to an end all the same, never asks for
a place that is not there, and says what the plain matcher says, which tries for each `*` every end of the name.

* `tryAll`, `tryAll_iff`: the plain matcher;
* `Cursor.After`: the cursors that come up, and how many turns come before them;
* `Cursor.After.within`, `Cursor.After.add_remaining_le`: what holds of all of them, by induction on the turns;
* `Cursor.After.exists_ended`: from each of them on, an end is reached;
* **`accepts_eq_tryAll`**: the comparison ends in time, and remembering the last `*` is enough.
-/

namespace GrammarBatch.Wildcard

/-! ## The plain matcher -/

/-- Whether the glob matches the name, found by trying every end of the name for what follows a `*`. -/
def tryAll : List Char → List Char → Bool
  | [], name => name.isEmpty
  | g :: glob, name =>
    if g = '*' then name.tails.any fun rest => tryAll glob rest
    else match name with
      | [] => false
      | c :: rest => (g = '?' || g = c) && tryAll glob rest

theorem tryAll_iff {glob name : List Char} : tryAll glob name = true ↔ Fits glob name := by
  induction glob generalizing name with
  | nil => simp [tryAll, fits_nil_iff]
  | cons g glob ih =>
    unfold tryAll
    by_cases hg : g = '*'
    · subst hg
      simp [fits_star_iff, ih]
    · rw [if_neg hg, fits_cons_iff hg]
      cases name with
      | nil => simp
      | cons c rest => simp [ih]

/-! ## Turn after turn -/

namespace Cursor

variable {glob name : Array Char} {c : Cursor} {turns : Nat}

/-- The cursor comes up after that many turns. -/
inductive After (glob name : Array Char) : Nat → Cursor → Prop where
  | start : After glob name 0 start
  | again {turns : Nat} {c c' : Cursor} : After glob name turns c → turn glob name c = .again c' →
    After glob name (turns + 1) c'

theorem After.within (h : After glob name turns c) : c.Within glob name := by
  induction h with
  | start => exact within_start glob name
  | again _ hc ih => exact ih.again hc

/-- Every turn uses up one of those that are left at the start. -/
theorem After.add_remaining_le (h : After glob name turns c) :
    turns + c.remaining glob name ≤ (glob.size + 1) * (name.size + 1) := by
  induction h with
  | start => simp [remaining, Cursor.start, base]
  | again hafter hc ih =>
    have := hafter.within.remaining_lt hc
    omega

theorem After.exists_ended (h : c.Within glob name) (hafter : After glob name turns c) :
    ∃ turns' last, After glob name turns' last ∧ turn glob name last = .ended (run glob name c h) := by
  fun_induction run glob name c h generalizing turns with
  | case1 c h c' hc ih => exact ih (hafter.again hc)
  | case2 c h matched hc => exact ⟨turns, c, hafter, hc⟩

end Cursor

/-- **Comparing a glob with a name takes at most one turn for each place of the glob and each place of the name,
their ends among them, and never asks for a place outside of them. It ends with what the plain matcher says: to
remember the last `*` is enough.** -/
theorem accepts_eq_tryAll (glob name : List Char) :
    (∀ turns c, Cursor.After glob.toArray name.toArray turns c →
      turns < (glob.length + 1) * (name.length + 1) ∧ c.globAt ≤ glob.length ∧ c.nameAt ≤ name.length ∧
      turn glob.toArray name.toArray c ≠ .outside) ∧
    (∃ turns c, Cursor.After glob.toArray name.toArray turns c ∧
      turn glob.toArray name.toArray c = .ended (tryAll glob name)) ∧
    accepts glob name = tryAll glob name := by
  have heq : accepts glob name = tryAll glob name := by
    rw [Bool.eq_iff_iff, accepts_iff, tryAll_iff]
  refine ⟨fun turns c hafter => ?_, ?_, heq⟩
  · have hturns := hafter.add_remaining_le
    have hpos : 0 < c.remaining glob.toArray name.toArray := Nat.sub_pos_of_lt hafter.within.compared_lt
    obtain ⟨hglob, hname, -, -⟩ := hafter.within
    simp only [List.size_toArray] at hturns hglob hname
    exact ⟨by omega, hglob, hname, hafter.within.turn_ne_outside⟩
  · rw [← heq]
    exact Cursor.After.exists_ended (Cursor.within_start _ _) .start

/-- A name in which `*` and `?` stand for themselves. After three turns the first `*` has taken one character more
than it began with. -/
theorem accepts_eq_tryAll_starred :
    let glob := ['a', '*', 'b', '*', 'c']
    let name := ['a', '*', 'b', 'b', '?', 'c']
    Cursor.After glob.toArray name.toArray 3 ⟨2, 2, some (1, 2)⟩ ∧
    turn glob.toArray name.toArray ⟨2, 2, some (1, 2)⟩ ≠ .outside ∧ accepts glob name = true := by
  intro glob name
  have hfirst : Cursor.After glob.toArray name.toArray 1 ⟨1, 1, none⟩ := Cursor.After.start.again (by decide)
  have hpassed : Cursor.After glob.toArray name.toArray 2 ⟨2, 1, some (1, 1)⟩ := hfirst.again (by decide)
  have hback : Cursor.After glob.toArray name.toArray 3 ⟨2, 2, some (1, 2)⟩ := hpassed.again (by decide)
  obtain ⟨hwithin, -, heq⟩ := accepts_eq_tryAll glob name
  exact ⟨hback, (hwithin 3 _ hback).2.2.2, heq.trans (by decide)⟩

end GrammarBatch.Wildcard
