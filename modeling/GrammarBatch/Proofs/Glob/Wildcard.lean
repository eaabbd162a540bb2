import GrammarBatch.Glob.Wildcard

/-!
# What a glob matches

`Wildcard.Fits` says what it means that a glob matches a name, without a word on how that is found out:
a `*` stands for any run of characters, a `?` for one character, and every other character for itself.

* `Cursor.Open`: what a cursor leaves to be matched, from where it is or from further on behind the last `*`;
* `Cursor.fits_further`: the exchange argument. A match from further on goes on behind the cursor, too, since no
  `*` has been passed since;
* `Cursor.open_again`, `Cursor.open_ended`: no turn loses a match or finds one that is none;
* **`accepts_iff`**: the comparison that only remembers the last `*` finds every match.
-/

namespace GrammarBatch.Wildcard

/-- The glob matches the whole name. -/
inductive Fits : List Char → List Char → Prop where
  /-- Nothing matches nothing. -/
  | nil : Fits [] []
  /-- A `*` takes any run of characters. -/
  | star (run : List Char) {glob name : List Char} : Fits glob name → Fits ('*' :: glob) (run ++ name)
  /-- A `?` takes exactly one character. -/
  | any (c : Char) {glob name : List Char} : Fits glob name → Fits ('?' :: glob) (c :: name)
  /-- Every other character takes itself. -/
  | char {c : Char} {glob name : List Char} : c ≠ '*' → c ≠ '?' → Fits glob name →
    Fits (c :: glob) (c :: name)

variable {g c : Char} {glob name : List Char}

theorem fits_nil_iff : Fits [] name ↔ name = [] := by
  constructor
  · intro h
    cases h
    rfl
  · rintro rfl
    exact .nil

theorem fits_star_iff : Fits ('*' :: glob) name ↔ ∃ rest, rest <:+ name ∧ Fits glob rest := by
  constructor
  · intro h
    cases h with
    | star run h => exact ⟨_, List.suffix_append _ _, h⟩
    | char hs => exact absurd rfl hs
  · rintro ⟨rest, ⟨run, rfl⟩, h⟩
    exact .star run h

theorem fits_cons_iff (hg : g ≠ '*') :
    Fits (g :: glob) name ↔ ∃ c rest, name = c :: rest ∧ (g = '?' ∨ g = c) ∧ Fits glob rest := by
  constructor
  · intro h
    cases h with
    | star => exact absurd rfl hg
    | any c h => exact ⟨c, _, rfl, Or.inl rfl, h⟩
    | char _ _ h => exact ⟨g, _, rfl, Or.inr rfl, h⟩
  · rintro ⟨c, rest, rfl, hc, h⟩
    by_cases hq : g = '?'
    · subst hq
      exact .any c h
    · obtain rfl := hc.resolve_left hq
      exact .char hg hq h

theorem fits_cons_cons_iff (hg : g ≠ '*') (hc : g = '?' ∨ g = c) :
    Fits (g :: glob) (c :: name) ↔ Fits glob name := by
  rw [fits_cons_iff hg]
  constructor
  · rintro ⟨_, _, he, -, h⟩
    cases he
    exact h
  · exact fun h => ⟨c, name, rfl, hc, h⟩

theorem fits_empty_iff : Fits glob [] ↔ glob.all (· == '*') = true := by
  induction glob with
  | nil => simp [fits_nil_iff]
  | cons g glob ih =>
    by_cases hg : g = '*'
    · subst hg
      simp [fits_star_iff, ih]
    · simp [fits_cons_iff hg, hg]

theorem fits_iff_eq (h : ∀ g ∈ glob, g ≠ '*' ∧ g ≠ '?') : Fits glob name ↔ glob = name := by
  induction glob generalizing name with
  | nil => rw [fits_nil_iff, eq_comm]
  | cons g glob ih =>
    obtain ⟨hs, hq⟩ := h g List.mem_cons_self
    have ih {rest : List Char} : Fits glob rest ↔ glob = rest :=
      ih fun x hx => h x (List.mem_cons_of_mem _ hx)
    rw [fits_cons_iff hs]
    constructor
    · rintro ⟨c, rest, rfl, hc, hr⟩
      rw [hc.resolve_left hq, ih.1 hr]
    · rintro rfl
      exact ⟨g, glob, rfl, Or.inr rfl, ih.2 rfl⟩

/-- A `*` takes nothing, or the next character and maybe more. -/
theorem fits_star_iff_tail : Fits ('*' :: glob) name ↔ Fits glob name ∨ Fits ('*' :: glob) name.tail := by
  cases name with
  | nil => simp [fits_star_iff]
  | cons c name => simp [fits_star_iff, List.suffix_cons_iff, or_and_right, exists_or]

theorem fits_star_star_iff : Fits ('*' :: '*' :: glob) name ↔ Fits ('*' :: glob) name := by
  rw [fits_star_iff]
  constructor
  · rintro ⟨rest, hrest, h⟩
    obtain ⟨further, hfurther, h⟩ := fits_star_iff.1 h
    exact fits_star_iff.2 ⟨further, hfurther.trans hrest, h⟩
  · exact fun h => ⟨name, List.suffix_refl name, h⟩

theorem not_fits_of_misses (h : Misses glob c) : ¬ Fits glob (c :: name) := by
  cases glob with
  | nil => simp [fits_nil_iff]
  | cons g glob =>
    obtain ⟨hs, hc⟩ := h g rfl
    rw [fits_cons_iff hs]
    rintro ⟨_, _, he, hc', -⟩
    cases he
    exact hc hc'

theorem exists_of_fits_append {part : List Char} (hp : '*' ∉ part) (h : Fits (part ++ glob) name) :
    ∃ taken left, name = taken ++ left ∧ taken.length = part.length ∧ Fits glob left := by
  induction part generalizing name with
  | nil => exact ⟨[], name, rfl, rfl, h⟩
  | cons g part ih =>
    obtain ⟨hg, hp⟩ := not_or.1 (mt List.mem_cons.2 hp)
    obtain ⟨c, rest, rfl, -, h⟩ := (fits_cons_iff (Ne.symm hg)).1 h
    obtain ⟨taken, left, rfl, hlength, h⟩ := ih hp h
    exact ⟨c :: taken, left, rfl, congrArg (· + 1) hlength, h⟩

/-! ## What is left to be matched -/

namespace Cursor

variable {glob name : Array Char} {c c' : Cursor} {matched : Bool}

/-- There is a match from the cursor on, or with more characters for the last `*`. -/
def Open (glob name : Array Char) (c : Cursor) : Prop :=
  Fits (glob.toList.drop c.globAt) (name.toList.drop c.nameAt) ∨
    ∃ s ∈ c.star?, Fits ('*' :: glob.toList.drop (s.1 + 1)) (name.toList.drop (s.2 + 1))

/-- No `*` stands between the base and the cursor. -/
def Plain (glob : Array Char) (c : Cursor) : Prop :=
  '*' ∉ (glob.toList.drop c.base.1).take (c.globAt - c.base.1)

theorem plain_start (glob : Array Char) : start.Plain glob := List.not_mem_nil

theorem plain_again (h : c.Within glob name) (hp : c.Plain glob) (hc : turn glob name c = .again c') :
    c'.Plain glob := by
  have hturn := hc ▸ h.turnsTo
  cases hturn with
  | passStar => simp [Plain, base, passStar]
  | back => simp [Plain, base, backTo]
  | @forward g n gs ns hg hn hs _ =>
    have hnext : (glob.toList.drop c.base.1)[c.globAt - c.base.1]? = some g := by
      rw [List.getElem?_drop, Nat.add_sub_cancel' h.base_le, ← List.head?_drop, hg, List.head?_cons]
    show '*' ∉ (glob.toList.drop c.base.1).take (c.globAt + 1 - c.base.1)
    rw [Nat.succ_sub h.base_le, List.take_add_one, hnext, List.mem_append, not_or]
    exact ⟨hp, by simpa using hs.symm⟩

/-- A match further on for the last `*` goes on behind the cursor: up to it, glob and name have been compared
character by character, and every match takes equally many of them. -/
theorem fits_further {star taken : Nat} (h : c.Within glob name) (hp : c.Plain glob)
    (hstar : c.star? = some (star, taken))
    (hf : Fits ('*' :: glob.toList.drop (star + 1)) (name.toList.drop (taken + 1))) :
    Fits ('*' :: glob.toList.drop c.globAt) (name.toList.drop c.nameAt) := by
  obtain ⟨hglob, -, hbase, heven⟩ := h
  simp only [Plain, base, hstar] at hp hbase heven
  obtain ⟨further, hfurther, hf⟩ := fits_star_iff.1 hf
  have hsplit := (List.take_append_drop (c.globAt - (star + 1)) (glob.toList.drop (star + 1))).symm
  rw [List.drop_drop, Nat.add_sub_cancel' hbase] at hsplit
  -- the part of the glob since the last `*` comes first in this match, and leaves no more than the cursor does
  rw [hsplit] at hf
  obtain ⟨compared, left, rfl, hlength, hf⟩ := exists_of_fits_append hp hf
  have hle := hfurther.length_le
  simp only [List.length_append, List.length_take, List.length_drop, Array.length_toList] at hlength hle
  have hleft : left <:+ name.toList.drop c.nameAt := by
    refine List.suffix_of_suffix_length_le ?_ (List.drop_suffix _ _) ?_
    · exact (List.suffix_append _ _).trans (hfurther.trans (List.drop_suffix _ _))
    · simp only [List.length_drop, Array.length_toList]
      omega
  exact fits_star_iff.2 ⟨left, hleft, hf⟩

theorem open_again (h : c.Within glob name) (hp : c.Plain glob) (hc : turn glob name c = .again c') :
    c'.Open glob name ↔ c.Open glob name := by
  have hturn := hc ▸ h.turnsTo
  have hgs : (glob.toList.drop c.globAt).tail = glob.toList.drop (c.globAt + 1) := List.tail_drop
  have hns : (name.toList.drop c.nameAt).tail = name.toList.drop (c.nameAt + 1) := List.tail_drop
  cases hturn with
  | passStar hg hn =>
    rw [hg, List.tail_cons] at hgs
    have hnew : c.passStar.Open glob name ↔ Fits (glob.toList.drop c.globAt) (name.toList.drop c.nameAt) := by
      rw [hg, fits_star_iff_tail, hns, hgs]
      simp [Open, passStar]
    rw [hnew, Open]
    constructor
    · exact Or.inl
    · rintro (hf | ⟨s, hstar, hf⟩)
      · exact hf
      · -- what the earlier `*` could have taken, this one can take as well
        have hfurther := fits_further h hp hstar hf
        rwa [hg, fits_star_star_iff, ← hg] at hfurther
  | forward hg hn hs htakes =>
    have hnext : Fits (glob.toList.drop (c.globAt + 1)) (name.toList.drop (c.nameAt + 1)) ↔
        Fits (glob.toList.drop c.globAt) (name.toList.drop c.nameAt) := by
      rw [← hgs, ← hns, hg, hn, fits_cons_cons_iff hs htakes]
      rfl
    exact or_congr hnext Iff.rfl
  | @back star taken _ _ hstar hn hg =>
    have hnew : (backTo star taken).Open glob name ↔
        Fits ('*' :: glob.toList.drop (star + 1)) (name.toList.drop (taken + 1)) := by
      rw [fits_star_iff_tail, List.tail_drop]
      simp [Open, backTo]
    rw [hnew, Open, hn]
    simp [hstar, not_fits_of_misses hg]

/-- What the last turn says is whether anything could be matched. -/
theorem open_ended (h : c.Within glob name) (hp : c.Plain glob) (hc : turn glob name c = .ended matched) :
    c.Open glob name ↔ matched = true := by
  have hturn := hc ▸ h.turnsTo
  cases hturn with
  | stuck hstar hn hg =>
    rw [Open, hn]
    simp [hstar, not_fits_of_misses hg]
  | atEnd hn =>
    rw [← fits_empty_iff, Open, ← hn]
    constructor
    · rintro (hf | ⟨s, hstar, hf⟩)
      · exact hf
      · have hfurther := fits_further h hp hstar hf
        rw [fits_star_iff_tail, hn] at hfurther
        rw [hn]
        simpa [fits_star_iff] using hfurther
    · exact Or.inl

end Cursor

variable {glob name : Array Char} {c : Cursor}

/-- The run from a cursor finds a match exactly where there is something left to be matched. -/
theorem run_iff (h : c.Within glob name) (hp : c.Plain glob) : run glob name c h = true ↔ c.Open glob name := by
  fun_induction run glob name c h with
  | case1 c h c' hc ih => rw [ih (Cursor.plain_again h hp hc), Cursor.open_again h hp hc]
  | case2 c h matched hc => exact (Cursor.open_ended h hp hc).symm

/-- **The glob is found to match a name exactly where it does.** -/
theorem accepts_iff {glob name : List Char} : accepts glob name = true ↔ Fits glob name := by
  rw [accepts, run_iff _ (Cursor.plain_start _)]
  simp [Cursor.Open, Cursor.start]

end GrammarBatch.Wildcard
