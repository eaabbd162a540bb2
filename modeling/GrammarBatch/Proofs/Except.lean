/-!
# Steps that may fail

* `bind_eq_ok`, `map_eq_ok`: a computation that may fail gives a value exactly where each of its steps does;
* `bind_eq_error`, `map_eq_error`, `mapM_eq_error_iff`: it fails exactly where some step does after others that
  do not;
* `exists_of_mem_mapM`, `exists_of_mapM_eq_ok`: a step for each element of a list gives a value for each of them,
  and no other;
* `mapError_eq_ok`, `mapError_eq_error`: telling a failure in other words changes no value;
* `toOption_eq_some`: a value is there whether or not failures are told apart.
-/

namespace GrammarBatch

variable {ε α β : Type} {x : Except ε α} {b : β}

theorem bind_eq_ok {f : α → Except ε β} : x >>= f = .ok b ↔ ∃ a, x = .ok a ∧ f a = .ok b := by
  cases x with
  | error e => simp [bind, Except.bind]
  | ok a => simp [bind, Except.bind]

theorem map_eq_ok {f : α → β} : x.map f = .ok b ↔ ∃ a, x = .ok a ∧ f a = b := by
  cases x with
  | error e => simp [Except.map]
  | ok a => simp [Except.map]

theorem bind_eq_error {f : α → Except ε β} {e : ε} :
    x >>= f = .error e ↔ x = .error e ∨ ∃ a, x = .ok a ∧ f a = .error e := by
  cases x with
  | error e' => simp [bind, Except.bind]
  | ok a => simp [bind, Except.bind]

theorem map_eq_error {f : α → β} {e : ε} : x.map f = .error e ↔ x = .error e := by
  cases x with
  | error e' => simp [Except.map]
  | ok a => simp [Except.map]

theorem mapError_eq_ok {ε' : Type} {f : ε → ε'} {a : α} : x.mapError f = .ok a ↔ x = .ok a := by
  cases x with
  | error e => exact ⟨nofun, nofun⟩
  | ok a' =>
    constructor
    · rintro ⟨⟩
      rfl
    · rintro ⟨⟩
      rfl

theorem mapError_eq_error {ε' : Type} {f : ε → ε'} {e' : ε'} :
    x.mapError f = .error e' ↔ ∃ e, x = .error e ∧ f e = e' := by
  cases x with
  | error e =>
    constructor
    · rintro ⟨⟩
      exact ⟨e, rfl, rfl⟩
    · rintro ⟨e, ⟨⟩, rfl⟩
      rfl
  | ok a =>
    constructor
    · nofun
    · rintro ⟨e, ⟨⟩, -⟩

theorem toOption_eq_some {a : α} : x.toOption = some a ↔ x = .ok a := by
  cases x with
  | error e => exact ⟨nofun, nofun⟩
  | ok a' => rw [Except.toOption, Option.some.injEq, Except.ok.injEq]

theorem mapM_congr_left {f g : α → Except ε β} {l : List α} (h : ∀ a ∈ l, f a = g a) : l.mapM f = l.mapM g := by
  induction l with
  | nil => rfl
  | cons a l ih =>
    rw [List.mapM_cons, List.mapM_cons, h a List.mem_cons_self, ih fun b hb => h b (List.mem_cons_of_mem a hb)]

/-- One step for each element fails with the first of them that fails. -/
theorem mapM_eq_error_iff {f : α → Except ε β} {l : List α} {e : ε} : l.mapM f = .error e ↔
    ∃ before a after, l = before ++ a :: after ∧ (∀ b ∈ before, ∃ y, f b = .ok y) ∧ f a = .error e := by
  induction l with
  | nil =>
    constructor
    · nofun
    · rintro ⟨before, a, after, h, -⟩
      cases before <;> cases h
  | cons a l ih =>
    have hrest (y : β) : (l.mapM f >>= fun ys => pure (y :: ys)) = .error e ↔ l.mapM f = .error e := by
      rw [bind_eq_error]
      exact or_iff_left (by rintro ⟨ys, -, h⟩; cases h)
    rw [List.mapM_cons, bind_eq_error]
    simp only [hrest, ih]
    constructor
    · rintro (h | ⟨y, hy, before, b, after, rfl, hbefore, hb⟩)
      · exact ⟨[], a, l, rfl, nofun, h⟩
      · refine ⟨a :: before, b, after, rfl, fun c hc => ?_, hb⟩
        rcases List.mem_cons.1 hc with rfl | hc
        · exact ⟨y, hy⟩
        · exact hbefore c hc
    · rintro ⟨before, b, after, hl, hbefore, hb⟩
      cases before with
      | nil =>
        cases hl
        exact Or.inl hb
      | cons c before =>
        cases hl
        obtain ⟨y, hy⟩ := hbefore a List.mem_cons_self
        exact Or.inr ⟨y, hy, before, b, after, rfl, fun c hc => hbefore c (List.mem_cons_of_mem a hc), hb⟩

theorem exists_of_mem_mapM {f : α → Except ε β} {l : List α} {bs : List β} (h : l.mapM f = .ok bs)
    (hb : b ∈ bs) : ∃ a ∈ l, f a = .ok b := by
  induction l generalizing bs with
  | nil =>
    cases h
    cases hb
  | cons a l ih =>
    rw [List.mapM_cons] at h
    obtain ⟨y, hy, h⟩ := bind_eq_ok.1 h
    obtain ⟨ys, hys, h⟩ := bind_eq_ok.1 h
    cases h
    rcases List.mem_cons.1 hb with rfl | hb
    · exact ⟨a, List.mem_cons_self, hy⟩
    · obtain ⟨a', ha', hfa⟩ := ih hys hb
      exact ⟨a', List.mem_cons_of_mem a ha', hfa⟩

theorem exists_of_mapM_eq_ok {f : α → Except ε β} {l : List α} {a : α} {bs : List β} (h : l.mapM f = .ok bs)
    (ha : a ∈ l) : ∃ b, f a = .ok b := by
  cases hf : f a with
  | ok b => exact ⟨b, rfl⟩
  | error e =>
    induction l generalizing bs with
    | nil => cases ha
    | cons a' l ih =>
      rw [List.mapM_cons] at h
      obtain ⟨y, hy, h⟩ := bind_eq_ok.1 h
      obtain ⟨ys, hys, -⟩ := bind_eq_ok.1 h
      rcases List.mem_cons.1 ha with rfl | ha
      · rw [hf] at hy
        cases hy
      · exact ih hys ha

end GrammarBatch
