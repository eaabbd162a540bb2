/-!
# Wildcards inside one name

A glob is a list of characters in which `*` stands for any run of characters, `?` for exactly one, and
every other character for itself. Glob and name are compared side by side, character by character.

* `Wildcard.Cursor`: the places that are compared next, and the last `*` that was passed;
* `Wildcard.turn`: what one comparison comes to, which might be to ask for a place that is not there;
* `Wildcard.Cursor.Within`, `Wildcard.Cursor.remaining`: what every turn keeps, and how many turns are left;
* `Wildcard.run`, `Wildcard.accepts`: turn after turn, whether the glob matches the whole name.

Only the last `*` is remembered. When what follows it does not fit, the `*` takes one character more,
and an earlier `*` is never reconsidered: the first place where the part between two of them fits leaves
the most of the name to what comes after.
-/

namespace GrammarBatch.Wildcard

/-- How far glob and name have been compared. -/
structure Cursor where
  /-- The place in the glob that comes next. -/
  globAt : Nat
  /-- The place in the name that comes next. -/
  nameAt : Nat
  /-- The place of the last `*`, and the place in the name up to which it takes. -/
  star? : Option (Nat × Nat)
deriving DecidableEq, Repr

/-- What a turn comes to. -/
inductive Turn where
  | again (c : Cursor)
  | ended (matched : Bool)
  /-- A place outside of the glob or of the name was asked for. -/
  | outside
deriving DecidableEq, Repr

namespace Cursor

/-- Where the comparison starts. -/
def start : Cursor := ⟨0, 0, none⟩

/-- One character further in both. -/
def forward (c : Cursor) : Cursor := { c with globAt := c.globAt + 1, nameAt := c.nameAt + 1 }

/-- Behind a `*`, which takes nothing so far. -/
def passStar (c : Cursor) : Cursor := { c with globAt := c.globAt + 1, star? := some (c.globAt, c.nameAt) }

/-- Back behind a `*`, which takes one character more. -/
def backTo (star taken : Nat) : Cursor := ⟨star + 1, taken + 1, some (star, taken + 1)⟩

/-- Back behind the last `*`. If there was none, there is no match. -/
def backtrack (c : Cursor) : Turn :=
  match c.star? with
  | some (star, taken) => .again (backTo star taken)
  | none => .ended false

end Cursor

/-- One turn. At the end of the name, nothing but `*` may be left of the glob. -/
def turn (glob name : Array Char) (c : Cursor) : Turn :=
  if c.nameAt < name.size then
    match glob[c.globAt]? with
    | none => c.backtrack
    | some g =>
      -- only in the glob: in the name, both are characters like all others
      if g = '*' then .again c.passStar
      else if g = '?' then .again c.forward
      else match name[c.nameAt]? with
        | none => .outside
        | some n => if g = n then .again c.forward else c.backtrack
  else if c.globAt ≤ glob.size then .ended ((glob.toList.drop c.globAt).all (· == '*'))
  else .outside

/-! ## What every turn keeps -/

/-- What is left of the glob neither takes the character nor begins with a `*`. -/
def Misses (rest : List Char) (n : Char) : Prop := ∀ g ∈ rest.head?, g ≠ '*' ∧ ¬(g = '?' ∨ g = n)

theorem lt_size_of_drop {as : Array Char} {i : Nat} {a : Char} {rest : List Char}
    (h : as.toList.drop i = a :: rest) : i < as.size := by
  apply Nat.lt_of_not_le
  intro hle
  rw [List.drop_eq_nil_of_le hle] at h
  cases h

theorem mul_add_le_mul {x x' y y' k : Nat} (hx : x' + k ≤ x) (hy : y' ≤ y) (hpos : 0 < y) :
    x' * y' + k ≤ x * y :=
  calc x' * y' + k ≤ x' * y + k * y :=
        Nat.add_le_add (Nat.mul_le_mul_left x' hy) (Nat.le_mul_of_pos_right k hpos)
    _ = (x' + k) * y := (Nat.add_mul x' k y).symm
    _ ≤ x * y := Nat.mul_le_mul_right y hx

namespace Cursor

/-- The places behind the last `*` and what it takes: from there, the two have been compared. -/
def base (c : Cursor) : Nat × Nat :=
  match c.star? with
  | some (star, taken) => (star + 1, taken)
  | none => (0, 0)

/-- The cursor is within glob and name, and has come equally far in both since the last `*`. -/
structure Within (glob name : Array Char) (c : Cursor) : Prop where
  globAt_le : c.globAt ≤ glob.size
  nameAt_le : c.nameAt ≤ name.size
  base_le : c.base.1 ≤ c.globAt
  even : c.globAt + c.base.2 = c.nameAt + c.base.1

/-- The turns that are left, at most: for each place behind the last `*` and each place in the name where
what follows the `*` may begin. -/
def remaining (glob name : Array Char) (c : Cursor) : Nat :=
  (glob.size + 1 - c.base.1) * (name.size + 1 - c.base.2) - (c.globAt - c.base.1)

/-- What a turn within glob and name comes to, by what is left of the two. -/
inductive TurnsTo (glob name : Array Char) (c : Cursor) : Turn → Prop where
  | passStar {n : Char} {gs ns : List Char} (hg : glob.toList.drop c.globAt = '*' :: gs)
    (hn : name.toList.drop c.nameAt = n :: ns) : TurnsTo glob name c (.again c.passStar)
  | forward {g n : Char} {gs ns : List Char} (hg : glob.toList.drop c.globAt = g :: gs)
    (hn : name.toList.drop c.nameAt = n :: ns) (hs : g ≠ '*') (hc : g = '?' ∨ g = n) :
    TurnsTo glob name c (.again c.forward)
  | back {star taken : Nat} {n : Char} {ns : List Char} (hstar : c.star? = some (star, taken))
    (hn : name.toList.drop c.nameAt = n :: ns) (hg : Misses (glob.toList.drop c.globAt) n) :
    TurnsTo glob name c (.again (backTo star taken))
  | stuck {n : Char} {ns : List Char} (hstar : c.star? = none) (hn : name.toList.drop c.nameAt = n :: ns)
    (hg : Misses (glob.toList.drop c.globAt) n) : TurnsTo glob name c (.ended false)
  | atEnd (hn : name.toList.drop c.nameAt = []) :
    TurnsTo glob name c (.ended ((glob.toList.drop c.globAt).all (· == '*')))

variable {glob name : Array Char} {c c' : Cursor}

theorem turnsTo_backtrack {n : Char} {ns : List Char} (hn : name.toList.drop c.nameAt = n :: ns)
    (hg : Misses (glob.toList.drop c.globAt) n) : c.TurnsTo glob name c.backtrack := by
  unfold backtrack
  cases hs : c.star? with
  | none => exact .stuck hs hn hg
  | some _ => exact .back hs hn hg

theorem Within.turnsTo (h : c.Within glob name) : c.TurnsTo glob name (turn glob name c) := by
  unfold turn
  by_cases hn : c.nameAt < name.size
  · have hleft : name.toList.drop c.nameAt = name[c.nameAt] :: name.toList.drop (c.nameAt + 1) :=
      List.drop_eq_getElem_cons hn
    rw [if_pos hn, Array.getElem?_eq_getElem hn]
    by_cases hg : c.globAt < glob.size
    · have hrest : glob.toList.drop c.globAt = glob[c.globAt] :: glob.toList.drop (c.globAt + 1) :=
        List.drop_eq_getElem_cons hg
      rw [Array.getElem?_eq_getElem hg]
      dsimp only
      by_cases hs : glob[c.globAt] = '*'
      · rw [if_pos hs]
        exact .passStar (hs ▸ hrest) hleft
      · rw [if_neg hs]
        by_cases hq : glob[c.globAt] = '?'
        · rw [if_pos hq]
          exact .forward hrest hleft hs (Or.inl hq)
        · rw [if_neg hq]
          by_cases hc : glob[c.globAt] = name[c.nameAt]
          · rw [if_pos hc]
            exact .forward hrest hleft hs (Or.inr hc)
          · rw [if_neg hc]
            refine turnsTo_backtrack hleft fun g hg => ?_
            rw [hrest, List.head?_cons, Option.mem_some] at hg
            exact hg ▸ ⟨hs, not_or.2 ⟨hq, hc⟩⟩
    · have hrest : glob.toList.drop c.globAt = [] := List.drop_eq_nil_of_le (Nat.le_of_not_lt hg)
      rw [Array.getElem?_eq_none (Nat.le_of_not_lt hg)]
      refine turnsTo_backtrack hleft fun g hg => ?_
      rw [hrest] at hg
      cases hg
  · rw [if_neg hn, if_pos h.globAt_le]
    exact .atEnd (List.drop_eq_nil_of_le (Nat.le_of_not_lt hn))

/-- No place outside of glob and name is asked for. -/
theorem Within.turn_ne_outside (h : c.Within glob name) : turn glob name c ≠ .outside := by
  intro ho
  have := ho ▸ h.turnsTo
  cases this

theorem within_start (glob name : Array Char) : start.Within glob name :=
  ⟨Nat.zero_le _, Nat.zero_le _, Nat.le_refl 0, rfl⟩

theorem Within.again (h : c.Within glob name) (hc : turn glob name c = .again c') : c'.Within glob name := by
  have hturn := hc ▸ h.turnsTo
  obtain ⟨hglob, hname, hbase, heven⟩ := h
  cases hturn with
  | passStar hg hn =>
    have := lt_size_of_drop hg
    exact ⟨this, hname, Nat.le_refl _, Nat.add_comm _ _⟩
  | forward hg hn =>
    have hg := lt_size_of_drop hg
    have hn := lt_size_of_drop hn
    refine ⟨hg, hn, Nat.le_succ_of_le hbase, ?_⟩
    show c.globAt + 1 + c.base.2 = c.nameAt + 1 + c.base.1
    omega
  | back hstar hn =>
    have hn := lt_size_of_drop hn
    simp only [base, hstar] at hbase heven
    refine ⟨?_, ?_, Nat.le_refl _, Nat.add_comm _ _⟩
    · show _ + 1 ≤ glob.size
      omega
    · show _ + 1 ≤ name.size
      omega

/-- Since the last `*` fewer characters have been compared than turns were left there. -/
theorem Within.compared_lt (h : c.Within glob name) :
    c.globAt - c.base.1 < (glob.size + 1 - c.base.1) * (name.size + 1 - c.base.2) := by
  obtain ⟨hglob, hname, hbase, heven⟩ := h
  exact Nat.lt_of_lt_of_le (by omega) (Nat.le_mul_of_pos_right (glob.size + 1 - c.base.1) (by omega))

theorem Within.remaining_lt (h : c.Within glob name) (hc : turn glob name c = .again c') :
    c'.remaining glob name < c.remaining glob name := by
  have hturn := hc ▸ h.turnsTo
  have hcompared := h.compared_lt
  obtain ⟨hglob, hname, hbase, heven⟩ := h
  unfold remaining
  cases hturn with
  | passStar hg hn =>
    have hg := lt_size_of_drop hg
    have hle : (glob.size + 1 - (c.globAt + 1)) * (name.size + 1 - c.nameAt) + (1 + (c.globAt - c.base.1)) ≤
        (glob.size + 1 - c.base.1) * (name.size + 1 - c.base.2) :=
      mul_add_le_mul (by omega) (by omega) (by omega)
    show (glob.size + 1 - (c.globAt + 1)) * (name.size + 1 - c.nameAt) - _ < _
    omega
  | forward hg hn =>
    show (glob.size + 1 - c.base.1) * (name.size + 1 - c.base.2) - (c.globAt + 1 - c.base.1) < _
    omega
  | @back star taken _ _ hstar hn =>
    have hn := lt_size_of_drop hn
    simp only [base, hstar] at hbase heven ⊢
    have hle : (glob.size + 1 - (star + 1)) * (name.size + 1 - (taken + 1)) + (glob.size + 1 - (star + 1)) ≤
        (glob.size + 1 - (star + 1)) * (name.size + 1 - taken) := by
      rw [← Nat.mul_succ]
      exact Nat.mul_le_mul_left _ (by omega)
    show (glob.size + 1 - (star + 1)) * (name.size + 1 - (taken + 1)) - _ < _
    omega

end Cursor

/-- Turn after turn, up to the end. -/
def run (glob name : Array Char) (c : Cursor) (h : c.Within glob name) : Bool :=
  match hc : turn glob name c with
  | .again c' => run glob name c' (h.again hc)
  | .ended matched => matched
  | .outside => absurd hc h.turn_ne_outside
termination_by c.remaining glob name
decreasing_by exact h.remaining_lt hc

/-- Whether the glob matches the whole name. -/
def accepts (glob name : List Char) : Bool :=
  run glob.toArray name.toArray .start (Cursor.within_start _ _)

end GrammarBatch.Wildcard
