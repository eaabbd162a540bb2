import GrammarBatch.Proofs.CommandLine.Reading
import GrammarBatch.Proofs.Json.Number
import Mathlib

/-!
# Settings written as arguments

A setting is written as one argument: its long name, and its value after an equals sign. So the value may be any
text, also an empty one, and one that looks like an argument itself.

* `Setting.value?`, `Setting.written`: the value as it is written, and the whole argument;
* `readInteger_toDigits`, `Setting.readWord_toString`: numbers are read from their digits;
* **`Setting.ofValue_value?`**: a value that is written is read as the setting, and only a path may not be empty;
* `Form.of_written`, `Scope.walk_written`: an argument that is written adds its setting;
* **`Scope.read_written`**: settings that are written are read, if none is repeated that may not be.
-/

namespace GrammarBatch.CommandLine

open Json.Number (le_ofDigitChars exists_toDigits)

/-! ## Numbers -/

section Digits

variable {cs : List Char} {acc n bound : Nat} {overflow : IntegerFault}

theorem readDigits_eq_ok (hcs : ∀ c ∈ cs, c.isDigit = true) (hfits : Nat.ofDigitChars 10 cs acc ≤ bound) :
    readDigits bound overflow acc cs = .ok (Nat.ofDigitChars 10 cs acc) := by
  induction cs generalizing acc with
  | nil => rfl
  | cons c cs ih =>
    rw [Nat.ofDigitChars_cons, Nat.mul_comm] at hfits ⊢
    have hacc : ¬ bound < acc * 10 + (c.toNat - '0'.toNat) :=
      Nat.not_lt.2 (Nat.le_trans (le_ofDigitChars cs _) hfits)
    rw [readDigits, hcs c List.mem_cons_self, Bool.not_true, if_neg Bool.false_ne_true]
    dsimp only
    rw [if_neg hacc]
    exact ih (fun d hd => hcs d (List.mem_cons_of_mem c hd)) hfits

theorem readInteger_toDigits (hn : n ≤ Nat.pow 2 63 - 1) : readInteger (Nat.toDigits 10 n) = .ok (n : Int) := by
  have hdigits : ∀ c ∈ Nat.toDigits 10 n, c.isDigit = true := fun c hc =>
    Nat.isDigit_of_mem_toDigits (by decide) (by decide) hc
  have hread : readDigits (Nat.pow 2 63 - 1) .tooLarge 0 (Nat.toDigits 10 n) = .ok n := by
    have hvalue : Nat.ofDigitChars 10 (Nat.toDigits 10 n) 0 = n := Nat.ofDigitChars_ten_toDigits
    rw [readDigits_eq_ok hdigits (hvalue.symm ▸ hn), hvalue]
  obtain ⟨c, cs, hcs, hc⟩ := exists_toDigits n
  rw [hcs] at hread ⊢
  unfold readInteger
  -- a digit is no sign
  split
  · rename_i h
    cases h
  · rename_i h
    cases h
    cases hc
  · rename_i h
    cases h
    cases hc
  · rename_i h
    cases h
    cases hc
  · rename_i h
    cases h
    cases hc
  · rw [hread]
    rfl

end Digits

namespace Setting

variable {x : Setting} {v : Bytes}

theorem readText_encode (s : String) : readText (Utf8.encode s) = .ok s := by
  rw [readText, Utf8.decode?_encode]

theorem readWord_toString (n : UInt32) : readWord (Utf8.encode (toString n.toNat)) = .ok n := by
  have hn : n.toNat < Nat.pow 2 32 := n.toNat_lt
  have hread : readInteger (toString n.toNat).toList = .ok (n.toNat : Int) := by
    rw [Nat.toString_eq_repr, Nat.toList_repr]
    exact readInteger_toDigits (Nat.le_trans hn.le (by decide))
  refine bind_eq_ok.2 ⟨toString n.toNat, readText_encode _, ?_⟩
  rw [hread]
  dsimp only
  rw [if_pos ⟨Int.natCast_nonneg _, by exact_mod_cast hn⟩, Int.toNat_natCast, UInt32.ofNat_toNat]

theorem readFormat_name (f : MessageFormat) : readFormat (Utf8.encode f.name) = .ok f := by
  rw [readFormat, readText_encode]
  cases f <;> rfl

/-! ## One argument -/

/-- The value as it is written, if the setting has one. -/
def value? : Setting → Option Bytes
  | config p | sourceDir p | outputDir p | libDir p => some p.bytes
  | includePattern s | excludePattern s | tool s | toolArg s => some (Utf8.encode s)
  | messageFormat f => some (Utf8.encode f.name)
  | maxSwitchCaseLabels n | minSwitchAlts n => some (Utf8.encode (toString n.toNat))
  | _ => none

/-- The path that the setting gives, if it gives one. -/
def path? : Setting → Option Path
  | config p | sourceDir p | outputDir p | libDir p => some p
  | _ => none

/-- The setting as one argument. -/
def written (x : Setting) : Bytes :=
  dash :: dash :: (Utf8.encode x.argument.long ++ x.value?.elim [] (equals :: ·))

theorem takesValue_argument (x : Setting) : x.argument.takesValue = x.value?.isSome := by
  cases x <;> rfl

theorem ofFlag?_argument (h : x.value? = none) : ofFlag? x.argument = some x := by
  cases x <;> first | rfl | cases h

/-- **A value that is written is read as the setting that it was written for.** -/
theorem ofValue_value? (hpath : ∀ p ∈ x.path?, p.bytes ≠ []) (h : x.value? = some v) :
    ofValue x.argument v = .ok x := by
  have hread (p : Path) (hp : p.bytes ≠ []) : readPath p.bytes = .ok p := if_neg hp
  cases x with
  | config p | sourceDir p | outputDir p | libDir p =>
    cases h
    exact congrArg (Except.map _) (hread p (hpath p rfl))
  | includePattern s | excludePattern s | tool s | toolArg s =>
    cases h
    exact congrArg (Except.map _) (readText_encode s)
  | messageFormat f =>
    cases h
    exact congrArg (Except.map _) (readFormat_name f)
  | maxSwitchCaseLabels n | minSwitchAlts n =>
    cases h
    exact congrArg (Except.map _) (readWord_toString n)
  | _ => cases h

end Setting

open Setting

variable {x : Setting}

theorem ne_equals_of_mem_long (a : Argument) : ∀ b ∈ Utf8.encode a.long, (b != equals) = true := by
  have hall : (Utf8.encode a.long).all (· != equals) = true := by cases a <;> decide
  exact List.all_eq_true.1 hall

theorem long_ne_nil (a : Argument) : Utf8.encode a.long ≠ [] := by
  cases a <;> decide

theorem Form.of_written (x : Setting) : Form.of x.written = .long (Utf8.encode x.argument.long) x.value? := by
  have hname := ne_equals_of_mem_long x.argument
  rw [written, Form.of, if_neg (not_not.2 rfl), if_neg (not_not.2 rfl),
    if_neg (by simp [long_ne_nil x.argument])]
  dsimp only
  rw [List.takeWhile_append_of_pos hname, List.dropWhile_append_of_pos hname]
  cases x.value? with
  | none => simp
  | some v => simp

namespace Scope

variable {s : Scope} {program : Option String} {settings done : List Setting}

theorem long?_of_mem {a : Argument} (ha : a ∈ s.arguments) : s.long? a.long = some a := by
  have hall : ∀ s : Scope, ∀ a ∈ s.arguments, s.long? a.long = some a := by
    rintro ⟨⟩ <;> decide
  exact hall s a ha

/-- An argument that is written adds its setting to those in front of it. -/
theorem readLong_written (hmem : x.argument ∈ s.arguments) (hpath : ∀ p ∈ x.path?, p.bytes ≠ [])
    (hnew : (!x.argument.isRepeatable && done.any (·.argument == x.argument)) = false) :
    s.readLong program ⟨done, none⟩ (Utf8.encode x.argument.long) x.value? = .ok ⟨done ++ [x], none⟩ := by
  have hgive : Progress.give ⟨done, none⟩ x.argument (.ok x) = .ok ⟨done ++ [x], none⟩ :=
    Progress.give_eq_ok.2 ⟨hnew, x, rfl, rfl⟩
  rw [readLong, Utf8.decode?_encode, Option.bind_some, long?_of_mem hmem]
  dsimp only
  rw [takesValue_argument]
  cases hv : x.value? with
  | none => exact flag_eq_ok.2 ⟨_, x, rfl, ofFlag?_argument hv, hgive⟩
  | some v => exact bind_eq_ok.2 ⟨_, rfl, (ofValue_value? hpath hv).symm ▸ hgive⟩

theorem walk_written (hs : s ≠ .top) (hmem : ∀ x ∈ settings, x.argument ∈ s.arguments)
    (hpath : ∀ x ∈ settings, ∀ p ∈ x.path?, p.bytes ≠ [])
    (hone : ∀ a : Argument, a.isRepeatable = false →
      ((done ++ settings).filter (·.argument == a)).length ≤ 1) :
    s.walk program ⟨done, none⟩ (settings.map written) = .ok (⟨done ++ settings, none⟩, none) := by
  induction settings generalizing done with
  | nil => simp [walk]
  | cons x settings ih =>
    have hnew : (!x.argument.isRepeatable && done.any (·.argument == x.argument)) = false := by
      cases hr : x.argument.isRepeatable with
      | true => rfl
      | false =>
        have hlen := hone x.argument hr
        rw [List.filter_append, List.filter_cons_of_pos (by simp), List.length_append, List.length_cons] at hlen
        have hnil : done.filter (·.argument == x.argument) = [] := List.eq_nil_of_length_eq_zero (by omega)
        rw [Bool.not_false, Bool.true_and, List.any_eq_false]
        exact fun y hy => List.filter_eq_nil_iff.1 hnil y hy
    have hread : s.readLong program ⟨done, none⟩ (Utf8.encode x.argument.long) x.value? =
        .ok ⟨done ++ [x], none⟩ :=
      readLong_written (hmem x List.mem_cons_self) (hpath x List.mem_cons_self) hnew
    have hnext : done ++ x :: settings = done ++ [x] ++ settings := List.append_cons ..
    rw [hnext] at hone ⊢
    rw [List.map_cons, walk_cons (absurd · hs), if_neg nofun, Form.of_written]
    dsimp only
    rw [hread]
    exact ih (fun y hy => hmem y (List.mem_cons_of_mem x hy)) (fun y hy => hpath y (List.mem_cons_of_mem x hy)) hone

/-- **Settings that are written are read as they are, in their order, if none is given twice that may be given
once.** -/
theorem read_written (hs : s ≠ .top) (hmem : ∀ x ∈ settings, x.argument ∈ s.arguments)
    (hpath : ∀ x ∈ settings, ∀ p ∈ x.path?, p.bytes ≠ [])
    (hone : ∀ a : Argument, a.isRepeatable = false → (settings.filter (·.argument == a)).length ≤ 1)
    (hclash : clash? settings = none) : s.read program (settings.map written) = .ok settings := by
  refine bind_eq_ok.2 ⟨_, walk_written hs hmem hpath hone, bind_eq_ok.2 ⟨_, rfl, ?_⟩⟩
  dsimp only
  rw [List.nil_append, hclash]
  rfl

end Scope

end GrammarBatch.CommandLine
