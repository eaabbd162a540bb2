import GrammarBatch.Proofs.Json.Results
import GrammarBatch.Proofs.Json.Tree

/-!
# Readers without their faults

What is wrong with a text, and where, matters to the one who wrote it. For what a text gives it is enough that
there is a fault.

* `Reader.given`: what a reader gives and leaves unread, if it meets no fault;
* `Reader.given_bind`, `Reader.given_located`, `Reader.given_closing`: how readers are put together;
* `Reader.given_next`, `Schema.given_value`: blanks in front are passed.
-/

namespace GrammarBatch.Json

namespace Reader

variable {α β : Type} {r : Reader α} {s ws : List Char} {c : Char}

/-- What the reader gives, and the text that it leaves unread. -/
def given (r : Reader α) (s : List Char) : Option (α × List Char) :=
  match r s with
  | .ok a s' => some (a, s')
  | .error _ _ => none

theorem given_of_ok {a : α} {s' : List Char} (h : r s = .ok a s') : given r s = some (a, s') := by
  rw [given, h]

@[simp] theorem given_pure (a : α) (s : List Char) : given (pure a) s = some (a, s) := rfl

@[simp] theorem given_fail (p : Problem) (s : List Char) : given (fail p : Reader α) s = none := rfl

@[simp] theorem given_skip (s : List Char) : given skip s = some ((), s.tail) := rfl

@[simp] theorem given_get (s : List Char) : given (get : Reader (List Char)) s = some (s, s) := rfl

@[simp] theorem given_bind (r : Reader α) (f : α → Reader β) (s : List Char) :
    given (r >>= f) s = (given r s).bind fun x => given (f x.1) x.2 := by
  change given (EStateM.bind r f) s = _
  unfold given EStateM.bind
  cases r s <;> rfl

@[simp] theorem given_located (r : Reader α) (s : List Char) : given (located r) s = given r s := by
  unfold given located
  cases r s with
  | ok a s' => rfl
  | error f s' =>
    obtain ⟨p, unread⟩ := f
    cases unread <;> rfl

@[simp] theorem given_closing (r : Reader α) (close : Reader Unit) (s : List Char) :
    given (closing r close) s = (given r s).bind fun x => (given close x.2).map fun y => (x.1, y.2) := by
  unfold given closing
  cases r s with
  | ok a s' =>
    dsimp only [Option.bind_some]
    cases close s' <;> rfl
  | error f s' =>
    dsimp only
    cases close s' <;> rfl

/-- A reader that gives nothing meets a fault. -/
theorem given_of_yields (h : Yields r fun _ => False) (s : List Char) : given r s = none := by
  unfold given
  cases hr : r s with
  | ok a s' => exact (h s a s' hr).elim
  | error f s' => rfl

theorem of_given {P : α → Prop} {a : α} {s' : List Char} (hr : Yields r P) (h : given r s = some (a, s')) :
    P a := by
  unfold given at h
  split at h
  · rename_i hok
    cases h
    exact hr _ _ _ hok
  · cases h

/-- The next character is the first one behind the blanks. -/
theorem given_next (hws : Blank ws) (hc : isBlank c = false) (s : List Char) :
    given next (ws ++ c :: s) = some (some c, c :: s) := by
  have hdrop : (ws ++ c :: s).dropWhile isBlank = c :: s := by
    rw [List.dropWhile_append_of_pos hws, List.dropWhile_cons_of_neg (by simp [hc])]
  unfold given next
  rw [hdrop]
  rfl

/-- A text is read where the reader gives something and leaves nothing but blanks. -/
theorem run_of_given {text : List Char} {a : α} (h : given r text = some (a, s)) (hs : Blank s) :
    run r text = .ok a := by
  have hdrop : s.dropWhile isBlank = [] := by
    rw [← List.append_nil s, List.dropWhile_append_of_pos hs, List.dropWhile_nil]
  have hnext : given next s = some (none, []) := by
    unfold given next
    rw [hdrop]
    rfl
  have hall : given (r >>= fun a => finish >>= fun _ => pure a) text = some (a, []) := by
    simp [h, finish, hnext]
  unfold given at hall
  rw [run]
  generalize (r >>= fun a => finish >>= fun _ => pure a) text = result at hall ⊢
  cases result with
  | ok b s' =>
    cases hall
    rfl
  | error f s' => cases hall

theorem run_of_given_none {text : List Char} (h : given r text = none) : ∃ f, run r text = .error f := by
  have hall : given (r >>= fun a => finish >>= fun _ => pure a) text = none := by
    rw [given_bind, h]
    rfl
  unfold given at hall
  rw [run]
  generalize (r >>= fun a => finish >>= fun _ => pure a) text = result at hall ⊢
  cases result with
  | ok b s' => cases hall
  | error f s' => exact ⟨f, rfl⟩

end Reader

namespace Schema

open Reader

variable {α : Type} {r : Reader α} {s ws : List Char} {c : Char} {wanted : String} {start : Char → Option (Reader α)}

theorem given_refuse (wanted : String) (s : List Char) : given (refuse wanted : Reader α) s = none :=
  given_of_yields (yields_refuse wanted) s

theorem given_value (hws : Blank ws) (hc : isBlank c = false) (s : List Char) :
    given (value wanted start) (ws ++ c :: s) = (start c).bind fun r => given r (c :: s) := by
  rw [value, given_located, given_bind, given_next hws hc]
  dsimp only [Option.bind_some]
  cases start c with
  | none => exact given_refuse wanted _
  | some r => rfl

end Schema

end GrammarBatch.Json
