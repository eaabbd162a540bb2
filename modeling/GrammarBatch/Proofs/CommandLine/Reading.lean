import GrammarBatch.Proofs.CommandLine.Scopes
import GrammarBatch.Proofs.Text.ByteOrder
import GrammarBatch.Proofs.Text.Utf8
import Mathlib

/-!
# Reading one argument after another

* `Scope.Progress.give_eq_ok`, `Scope.flag_eq_ok`: where a setting is taken;
* `Utf8.decode?_cons`, `textInFront_cons`: a byte below 128 is a character, whatever comes after it;
* **`Scope.readCluster_cons`**, `Scope.exists_short_of_readCluster`: so the bytes after a dash are read one letter
  after another, until one takes the rest as its value;
* **`Scope.walk_cons`**: the arguments are read one after another, until the verb;
* `Scope.clash?_eq_none`, `Invocation.verbosityOf_nil`: settings that say nothing on verbosity.
-/

namespace GrammarBatch

namespace Utf8

variable {x : UInt8} {b : Bytes} {c : Char}

theorem encodeChar_of_lt (hc : c.toNat < 0x80) : String.utf8EncodeChar c = [UInt8.ofNat c.toNat] := by
  have hc : c.val.toNat ≤ 0x7F := Nat.le_of_lt_succ hc
  unfold String.utf8EncodeChar
  dsimp only
  rw [if_pos hc]
  rfl

theorem head_encodeChar (hc : ¬ c.toNat < 0x80) : ∀ x ∈ (String.utf8EncodeChar c).head?, ¬ x < 0x80 := by
  have hc : ¬ c.val.toNat ≤ 0x7F := fun h => hc (Nat.lt_succ_of_le h)
  have hmax : c.val.toNat < 0x110000 := by rcases c.valid with h | h <;> omega
  unfold String.utf8EncodeChar
  dsimp only
  rw [if_neg hc]
  split_ifs <;> simp [UInt8.lt_iff_toNat_lt] <;> omega

/-- A byte below 128 is a character, and the bytes after it are read by themselves. -/
theorem decode?_cons (hx : x < 0x80) (b : Bytes) :
    decode? (x :: b) = (decode? b).map fun s => String.ofList (Char.ofNat x.toNat :: s.toList) := by
  have hnat := toNat_ofNat_byte hx
  have hlt : x.toNat < 0x80 := toNat_lt_of_lt hx
  have hcons (s : String) : encode (String.ofList (Char.ofNat x.toNat :: s.toList)) = x :: encode s := by
    rw [encode_ofList, List.flatMap_cons, ← encode_ofList, String.ofList_toList, encodeChar_of_lt (by omega),
      hnat, UInt8.ofNat_toNat, List.singleton_append]
  ext t
  rw [decode?_eq_some_iff, Option.map_eq_some_iff]
  constructor
  · intro h
    cases hl : t.toList with
    | nil =>
      rw [← String.ofList_toList (s := t), hl, encode_ofList] at h
      cases h
    | cons c cs =>
      rw [← String.ofList_toList (s := t), hl, encode_ofList, List.flatMap_cons] at h
      have hc : c.toNat < 0x80 := by
        by_contra hc
        obtain ⟨y, l, hy⟩ := List.exists_cons_of_ne_nil (encodeChar_ne_nil c)
        have hhead := head_encodeChar hc y (by rw [hy]; rfl)
        rw [hy, List.cons_append, List.cons.injEq] at h
        exact hhead (h.1 ▸ hx)
      rw [encodeChar_of_lt hc, List.singleton_append, List.cons.injEq] at h
      refine ⟨String.ofList cs, ?_, ?_⟩
      · rw [decode?_eq_some_iff, encode_ofList, h.2]
      · rw [String.toList_ofList, (ofNat_byte_eq_iff hx hc).2 h.1, ← hl, String.ofList_toList]
  · rintro ⟨s, hs, rfl⟩
    rw [hcons, decode?_eq_some_iff.1 hs]

end Utf8

namespace CommandLine

variable {x : UInt8} {b : Bytes}

theorem exists_find_text (b : Bytes) : ∃ n t,
    ((List.range (b.length + 1)).reverse.find? fun n => (Utf8.decode? (b.take n)).isSome) = some n ∧
      Utf8.decode? (b.take n) = some t := by
  have hnone : (Utf8.decode? (b.take 0)).isSome = true := by
    rw [List.take_zero]
    exact Option.isSome_of_eq_some (Utf8.decode?_encode "")
  have hsome : ((List.range (b.length + 1)).reverse.find? fun n => (Utf8.decode? (b.take n)).isSome).isSome :=
    List.find?_isSome.2 ⟨0, List.mem_reverse.2 (List.mem_range.2 (Nat.succ_pos _)), hnone⟩
  obtain ⟨n, hn⟩ := Option.isSome_iff_exists.1 hsome
  have htext : (Utf8.decode? (b.take n)).isSome = true := by simpa using List.find?_some hn
  obtain ⟨t, ht⟩ := Option.isSome_iff_exists.1 htext
  exact ⟨n, t, hn, ht⟩

theorem textInFront_cons (hx : x < 0x80) (b : Bytes) :
    textInFront (x :: b) = (Char.ofNat x.toNat :: (textInFront b).1, (textInFront b).2) := by
  have htest : (fun n => (Utf8.decode? ((x :: b).take n)).isSome) ∘ Nat.succ =
      fun n => (Utf8.decode? (b.take n)).isSome := by
    funext n
    rw [Function.comp_apply, List.take_succ_cons, Utf8.decode?_cons hx, Option.isSome_map]
  obtain ⟨n, t, hn, ht⟩ := exists_find_text b
  have hfind : ((List.range ((x :: b).length + 1)).reverse.find? fun n =>
      (Utf8.decode? ((x :: b).take n)).isSome) = some (n + 1) := by
    rw [List.length_cons, List.range_succ_eq_map, List.reverse_cons, List.find?_append, ← List.map_reverse,
      List.find?_map, htest, hn]
    rfl
  unfold textInFront
  rw [hfind, hn, Option.getD_some, Option.getD_some]
  dsimp only
  rw [List.take_succ_cons, Utf8.decode?_cons hx, ht]
  simp

/-- Nothing is lost when the text in front is taken off. -/
theorem encode_textInFront (b : Bytes) :
    Utf8.encode (String.ofList (textInFront b).1) ++ (textInFront b).2 = b := by
  obtain ⟨n, t, hn, ht⟩ := exists_find_text b
  unfold textInFront
  rw [hn, Option.getD_some]
  dsimp only
  rw [ht, Option.getD_some, String.ofList_toList, ← Utf8.decode?_eq_some_iff.1 ht, List.take_append_drop]

namespace Scope

variable {s : Scope} {program : Option String} {p q : Progress} {a : Argument}
  {setting : Except ValueFault Setting}

/-! ## Settings -/

namespace Progress

theorem give_eq_ok : p.give a setting = .ok q ↔ (!a.isRepeatable && p.settings.any (·.argument == a)) = false ∧
    ∃ x, setting = .ok x ∧ q = { p with settings := p.settings ++ [x] } := by
  unfold give
  cases !a.isRepeatable && p.settings.any (·.argument == a) with
  | true =>
    rw [if_pos rfl]
    exact ⟨nofun, fun h => nomatch h.1⟩
  | false =>
    rw [if_neg nofun]
    cases setting with
    | error f => exact ⟨nofun, by rintro ⟨-, x, ⟨⟩, -⟩⟩
    | ok x =>
      constructor
      · rintro ⟨⟩
        exact ⟨rfl, x, rfl, rfl⟩
      · rintro ⟨-, x, ⟨⟩, rfl⟩
        rfl

theorem settle_pending (h : p.settle = .ok q) : q.pending = none := by
  unfold settle at h
  split at h
  · cases h
    assumption
  · cases h
  · obtain ⟨-, x, -, rfl⟩ := give_eq_ok.1 h
    rfl

theorem awaiting_of_settle (h : p.settle = .ok q) : p.awaiting? = none := by
  unfold settle at h
  unfold awaiting?
  split at h
  · rw [‹p.pending = none›]
  · cases h
  · rw [‹p.pending = some _›]

theorem awaiting_of_bind {f : Progress → Except Stop Progress} (h : p.settle >>= f = .ok q) :
    p.awaiting? = none := by
  obtain ⟨p₀, hs, -⟩ := bind_eq_ok.1 h
  exact awaiting_of_settle hs

theorem awaiting_supply (p : Progress) (value : Bytes) : (p.supply value).awaiting? = none := by
  unfold supply awaiting?
  cases p.pending <;> rfl

end Progress

theorem flag_eq_ok : s.flag program p a = .ok q ↔ ∃ p₀ x, p.settle = .ok p₀ ∧ Setting.ofFlag? a = some x ∧
    p₀.give a (.ok x) = .ok q := by
  unfold flag
  rw [bind_eq_ok]
  refine exists_congr fun p₀ => ?_
  rw [exists_and_left]
  refine and_congr_right fun _ => ?_
  cases a <;> first
    | exact ⟨fun h => ⟨_, rfl, h⟩, by rintro ⟨x, ⟨⟩, h⟩; exact h⟩
    | exact ⟨nofun, by rintro ⟨x, ⟨⟩, -⟩⟩

/-! ## Letters -/

/-- Reads the bytes after a dash as letters. -/
def readCluster (s : Scope) (program : Option String) (p : Progress) (b : Bytes) : Except Stop Progress :=
  s.readLetters program p (textInFront b).1 (textInFront b).2

theorem readCluster_nil : s.readCluster program p [] = .ok p := by
  obtain ⟨htext, hsuffix⟩ := List.append_eq_nil_iff.1 (encode_textInFront [])
  have hnone : (textInFront []).1 = [] := by
    rw [Utf8.encode_ofList, List.flatMap_eq_nil_iff] at htext
    exact List.eq_nil_iff_forall_not_mem.2 fun c hc => Utf8.encodeChar_ne_nil c (htext c hc)
  rw [readCluster, hnone, hsuffix]
  rfl

/-- The bytes after a letter are its value, or letters themselves. -/
theorem readCluster_cons (hx : x < 0x80) (ha : s.short? (Char.ofNat x.toNat) = some a) (b : Bytes) :
    s.readCluster program p (x :: b) =
      if a.takesValue then
        match b with
        | [] => p.await a
        | y :: rest => p.giveValue a (if y = equals then rest else y :: rest)
      else s.flag program p a >>= fun p => s.readCluster program p b := by
  rw [readCluster, textInFront_cons hx, readLetters]
  dsimp only
  rw [ha, encode_textInFront]
  rfl

theorem lt_of_short? {c : Char} (h : s.short? c = some a) : c.toNat < 0x80 := by
  obtain ⟨-, hc⟩ := mem_of_short? h
  cases a <;> cases hc <;> decide

theorem exists_short_of_readCluster (h : s.readCluster program p (x :: b) = .ok q) :
    x < 0x80 ∧ ∃ a, s.short? (Char.ofNat x.toNat) = some a := by
  have hbytes := encode_textInFront (x :: b)
  unfold readCluster readLetters at h
  split at h
  · rename_i hnone
    have hsuffix : (textInFront (x :: b)).2 = x :: b := by
      rw [hnone] at hbytes
      exact hbytes
    rw [hsuffix, if_neg (List.cons_ne_nil x b)] at h
    cases h
  · rename_i c cs hcons
    split at h
    · cases h
    · rename_i a ha
      have hc := lt_of_short? ha
      rw [hcons, Utf8.encode_ofList, List.flatMap_cons, Utf8.encodeChar_of_lt hc] at hbytes
      obtain rfl : UInt8.ofNat c.toNat = x := (List.cons.inj hbytes).1
      have hnat : (UInt8.ofNat c.toNat).toNat = c.toNat := UInt8.toNat_ofNat_of_lt' (Nat.lt_trans hc (by decide))
      refine ⟨UInt8.lt_iff_toNat_lt.2 (by rw [hnat]; exact hc), a, ?_⟩
      rwa [hnat, Char.ofNat_toNat]

theorem awaiting_of_readCluster (h : s.readCluster program p (x :: b) = .ok q) : p.awaiting? = none := by
  obtain ⟨hx, a, ha⟩ := exists_short_of_readCluster h
  rw [readCluster_cons hx ha] at h
  split at h
  · split at h
    · exact Progress.awaiting_of_bind h
    · exact Progress.awaiting_of_bind h
  · obtain ⟨p₁, hf, -⟩ := bind_eq_ok.1 h
    exact Progress.awaiting_of_bind hf

/-! ## Arguments -/

theorem awaiting_of_readLong {name : Bytes} {value : Option Bytes}
    (h : s.readLong program p name value = .ok q) : p.awaiting? = none := by
  unfold readLong at h
  split at h
  · cases h
  split at h
  · exact Progress.awaiting_of_bind h
  · exact Progress.awaiting_of_bind h
  · cases h
  · exact Progress.awaiting_of_bind h

theorem form_of_letters {arg b : Bytes} (h : Form.of arg = .letters b) : ∃ x rest, b = x :: rest := by
  unfold Form.of at h
  split at h
  · split at h
    · cases h
    split at h
    · cases h
      exact ⟨_, _, rfl⟩
    split at h <;> cases h
  · cases h

theorem form_dash (hx : x ≠ dash) (b : Bytes) : Form.of (dash :: x :: b) = .letters (x :: b) := by
  rw [Form.of, if_neg (not_not.2 rfl), if_pos hx]

theorem walk_cons {arg : Bytes} (hverb : s = .top → Verb.ofBytes? arg = none) (p : Progress)
    (rest : List Bytes) :
    s.walk program p (arg :: rest) =
      if p.awaiting?.any (·.takesAnything) then s.walk program (p.supply arg) rest
      else match Form.of arg with
        | .dashes =>
          match rest with
          | [] => .ok (p, none)
          | next :: _ => refuse (s.stray true next)
        | .long name value => s.readLong program p name value >>= fun p => s.walk program p rest
        | .letters b => s.readCluster program p b >>= fun p => s.walk program p rest
        | .word =>
          if p.awaiting?.isSome then s.walk program (p.supply arg) rest else refuse (s.stray false arg) := by
  have hnone : (if p.awaiting?.isNone ∧ s = .top then Verb.ofBytes? arg else none) = none := by
    split_ifs with h
    · exact hverb h.2
    · rfl
  rw [walk.eq_def]
  dsimp only
  rw [hnone]
  rfl

/-! ## Verbosity -/

theorem clash?_eq_none {settings : List Setting} (hv : .verbose ∉ settings) (hq : .quiet ∉ settings) :
    clash? settings = none := by
  have hnone : settings.reverse.find? (fun s => s = .verbose ∨ s = .quiet) = none := by
    rw [List.find?_eq_none]
    intro x hx hx'
    rw [List.mem_reverse] at hx
    rcases of_decide_eq_true hx' with rfl | rfl
    · exact hv hx
    · exact hq hx
  rw [clash?, hnone]

end Scope

theorem Invocation.verbosityOf_nil {inner : List Setting} (h : .verbose ∉ inner) : verbosityOf [] inner = 0 := by
  rw [verbosityOf, if_neg (mt List.contains_iff_mem.1 h)]
  rfl

end CommandLine

end GrammarBatch
