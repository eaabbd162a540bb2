import GrammarBatch.Proofs.CommandLine.Accepted
import Mathlib

/-!
# Flags on verbosity, before the verb and behind it

The flags on verbosity may stand before the verb or behind it. A command line is taken apart into the flags before
its verb, those behind it, and the arguments without any.

* `flagsOf`, `unflagged?`: the flags in an argument, and what is left of it without them;
* `Scope.flags`, `Scope.unflagged`: the same for all arguments of a scope;
* `Invocation.flagsBefore`, `Invocation.flagsBehind`, `Invocation.unflagged`: the same for a command line;
* `Setting.Compatible`: flags that may stand together;
* `Scope.read_unflagged`: arguments are accepted if they are without their flags, and the flags are compatible;
* **`Invocation.ofArguments_flags_iff`**: the same for a command line, whose flags are compatible on each side;
* `Invocation.Moved`, `Invocation.moved_across`: command lines that differ in the places of their flags, as they do when
  a flag is taken across the verb;
* **`Invocation.ofArguments_moved`**: flags that all stand on one side may all stand on the other.
-/

namespace GrammarBatch.CommandLine

variable {program : Option String} {a : Argument} {arg part b : Bytes} {args before after : List Bytes}
  {xs ys zs fs : List Setting} {x : Setting} {waiting : Option Argument} {s : Scope}

open Setting (Once)

/-! ## Settings -/

namespace Setting

/-- The settings on verbosity. -/
def flags (xs : List Setting) : List Setting := xs.filter (!·.argument.isEssential)

/-- The setting for one of the two letters. -/
def ofLetter (y : UInt8) : Setting := if y = 0x76 then verbose else quiet

/-- Less may be told if it is asked for once, and more is not asked for. -/
def Compatible (fs : List Setting) : Prop := .quiet ∈ fs → fs = [.quiet]

instance (fs : List Setting) : Decidable (Compatible fs) := inferInstanceAs (Decidable (_ → _))

theorem flags_append : flags (xs ++ ys) = flags xs ++ flags ys := List.filter_append ..

theorem flags_of_essential (h : ∀ x ∈ xs, x.argument.isEssential = true) : flags xs = [] ∧ essentials xs = xs := by
  refine ⟨List.filter_eq_nil_iff.2 fun x hx => ?_, List.filter_eq_self.2 h⟩
  rw [h x hx]
  exact Bool.false_ne_true

theorem flags_essentials (xs : List Setting) : flags (essentials xs) = [] :=
  (flags_of_essential fun _ hx => (List.mem_filter.1 hx).2).1

theorem essentials_essentials (xs : List Setting) : essentials (essentials xs) = essentials xs :=
  (flags_of_essential fun _ hx => (List.mem_filter.1 hx).2).2

theorem flags_of_flags (h : ∀ x ∈ xs, x.argument.isEssential = false) : flags xs = xs ∧ essentials xs = [] := by
  refine ⟨List.filter_eq_self.2 fun x hx => ?_, List.filter_eq_nil_iff.2 fun x hx => ?_⟩
  · rw [h x hx]
    rfl
  · rw [h x hx]
    exact Bool.false_ne_true

theorem not_isEssential_iff : x.argument.isEssential = false ↔ x = .verbose ∨ x = .quiet := by
  cases x <;> simp [argument, Argument.isEssential]

theorem mem_flags (hx : x.argument.isEssential = false) : x ∈ flags xs ↔ x ∈ xs := by
  rw [flags, List.mem_filter, hx]
  exact and_iff_left rfl

theorem contains_flags (hx : x.argument.isEssential = false) : (flags xs).contains x = xs.contains x := by
  rw [Bool.eq_iff_iff, List.contains_iff_mem, List.contains_iff_mem, mem_flags hx]

theorem count_flags (hx : x.argument.isEssential = false) : (flags xs).count x = xs.count x :=
  List.count_filter (by rw [hx]; rfl)

theorem once_iff : Once xs ↔ Once (essentials xs) ∧ Once (flags xs) := by
  rw [Once, Once, Once, essentials, flags, List.pairwise_filter, List.pairwise_filter, ← List.pairwise_and_iff]
  refine List.Pairwise.iff fun x y => ?_
  constructor
  · exact fun h => ⟨fun _ _ => h, fun _ _ => h⟩
  · rintro ⟨hessential, hflag⟩ heq
    cases hx : x.argument.isEssential with
    | true => exact hessential hx (by rw [← heq, hx]) heq
    | false => exact hflag (by rw [hx]; rfl) (by rw [← heq, hx]; rfl) heq

theorem compatible_nil : Compatible [] := fun h => absurd h List.not_mem_nil

theorem compatible_iff (h : ∀ x ∈ fs, x.argument.isEssential = false) :
    Compatible fs ↔ Once fs ∧ ¬ (.verbose ∈ fs ∧ .quiet ∈ fs) := by
  constructor
  · intro hc
    by_cases hq : Setting.quiet ∈ fs
    · rw [hc hq]
      exact ⟨List.pairwise_singleton .., by decide⟩
    · refine ⟨List.pairwise_of_forall_mem_list fun x hx y _ _ => ?_, fun h => hq h.2⟩
      rcases not_isEssential_iff.1 (h x hx) with rfl | rfl
      · rfl
      · exact absurd hx hq
  · rintro ⟨hone, hclash⟩ hq
    have hall : ∀ x ∈ fs, x = .quiet := fun x hx =>
      (not_isEssential_iff.1 (h x hx)).resolve_left fun hv => hclash ⟨hv ▸ hx, hq⟩
    cases fs with
    | nil => cases hq
    | cons x rest =>
      have hx := hall x List.mem_cons_self
      cases rest with
      | nil => rw [hx]
      | cons y rest =>
        -- the second would repeat the first
        have hy := hall y (List.mem_cons_of_mem x List.mem_cons_self)
        have hrepeats := (List.pairwise_cons.1 hone).1 y List.mem_cons_self
        rw [hx, hy] at hrepeats
        exact Bool.noConfusion (hrepeats rfl)

theorem compatible_perm (h : fs.Perm ys) : Compatible fs ↔ Compatible ys := by
  rw [Compatible, Compatible, h.mem_iff]
  refine imp_congr_right fun _ => ⟨fun hfs => ?_, fun hys => ?_⟩
  · rw [hfs] at h
    exact List.perm_singleton.1 h.symm
  · rw [hys] at h
    exact List.perm_singleton.1 h

end Setting

open Setting (Compatible)

theorem Scope.clash?_eq_none_iff : clash? xs = none ↔ ¬ (Setting.verbose ∈ xs ∧ Setting.quiet ∈ xs) := by
  unfold clash?
  split
  · rename_i hfind
    have hq : Setting.quiet ∈ xs := by simpa using List.mem_of_find?_eq_some hfind
    simp [hq]
  · rename_i hfind
    have hv : Setting.verbose ∈ xs := by simpa using List.mem_of_find?_eq_some hfind
    simp [hv]
  · rename_i hquiet hverbose
    refine iff_of_true rfl ?_
    rintro ⟨hv, -⟩
    cases hfind : xs.reverse.find? fun s => s = .verbose ∨ s = .quiet with
    | none => exact List.find?_eq_none.1 hfind _ (List.mem_reverse.2 hv) (by decide)
    | some x =>
      have hx : x = .verbose ∨ x = .quiet := by simpa using List.find?_some hfind
      rcases hx with rfl | rfl
      · exact hverbose hfind
      · exact hquiet hfind

/-- **Settings can stand together if those on verbosity can, and the others.** -/
theorem Scope.once_and_clash?_iff : Once xs ∧ clash? xs = none ↔
    Once (Setting.essentials xs) ∧ Compatible (Setting.flags xs) := by
  have hflags : ∀ x ∈ Setting.flags xs, x.argument.isEssential = false := by
    intro x hx
    simpa using (List.mem_filter.1 hx).2
  rw [Setting.once_iff, Setting.compatible_iff hflags, clash?_eq_none_iff, and_assoc]
  simp only [Setting.mem_flags (x := .verbose) rfl, Setting.mem_flags (x := .quiet) rfl]

/-! ## One argument -/

/-- The flags on verbosity in an argument that is no value. -/
def flagsOf (arg : Bytes) : List Setting :=
  match Form.of arg with
  | .long name none =>
    if name = Utf8.encode "verbose" then [.verbose] else if name = Utf8.encode "quiet" then [.quiet] else []
  | .letters b =>
    if (b.dropWhile isVerbosityLetter).head? = some dash then []
    else (b.takeWhile isVerbosityLetter).map Setting.ofLetter
  | _ => []

/-- What is left of an argument without its flags, if anything is. Unlike `essentialPart?` it leaves letters with a dash
behind them alone, so that no argument that is refused turns into a long name. -/
def unflagged? (arg : Bytes) : Option Bytes :=
  match Form.of arg with
  | .long name none =>
    if name = Utf8.encode "verbose" then none else if name = Utf8.encode "quiet" then none else some arg
  | .letters b =>
    match b.dropWhile isVerbosityLetter with
    | [] => none
    | y :: rest => some (if y = dash then arg else dash :: y :: rest)
  | _ => some arg

theorem isEssential_of_mem_flagsOf (hx : x ∈ flagsOf arg) : x.argument.isEssential = false := by
  have hletter (y : UInt8) : (Setting.ofLetter y).argument.isEssential = false := by
    unfold Setting.ofLetter
    split <;> rfl
  unfold flagsOf at hx
  split at hx
  · split_ifs at hx
    · rw [List.mem_singleton.1 hx]
      rfl
    · rw [List.mem_singleton.1 hx]
      rfl
    · cases hx
  · split_ifs at hx
    · cases hx
    · obtain ⟨y, -, rfl⟩ := List.mem_map.1 hx
      exact hletter y
  · cases hx

namespace Scope

theorem cluster?_letter {y : UInt8} (hy : isVerbosityLetter y = true) :
    s.cluster? (y :: b) = (s.cluster? b).map fun r => (Setting.ofLetter y :: r.1, r.2) := by
  rcases Bool.or_eq_true_iff.1 hy with hv | hq
  · obtain rfl := eq_of_beq hv
    cases s <;> rfl
  · obtain rfl := eq_of_beq hq
    cases s <;> rfl

theorem cluster?_eq (b : Bytes) : s.cluster? b = (s.cluster? (b.dropWhile isVerbosityLetter)).map fun r =>
    ((b.takeWhile isVerbosityLetter).map Setting.ofLetter ++ r.1, r.2) := by
  induction b with
  | nil => rfl
  | cons y b ih =>
    rw [List.dropWhile_cons, List.takeWhile_cons]
    split
    · rename_i hy
      rw [cluster?_letter hy, ih, Option.map_map]
      rfl
    · exact Option.map_id'.symm

theorem cluster?_dash (b : Bytes) : s.cluster? (dash :: b) = none := by
  have hdash : s.short? (Char.ofNat dash.toNat) = none := by cases s <;> rfl
  rw [cluster?, hdash]
  rfl

theorem essential_of_cluster? {y : UInt8} {r : List Setting × Option Argument} (hy : isVerbosityLetter y = false)
    (h : s.cluster? (y :: b) = some r) : s ≠ .top ∧ ∀ x ∈ r.1, x.argument.isEssential = true := by
  obtain ⟨a, ha, h⟩ := Option.bind_eq_some_iff.1 h
  obtain ⟨-, hletter⟩ := isEssential_of_short? (lt_of_short_byte ha) ha
  rw [hy] at hletter
  have hmem := (mem_of_short? ha).1
  split at h
  · rename_i ht
    refine ⟨ne_top_of_mem hmem hletter (Or.inl ht), ?_⟩
    split at h
    · cases h
      exact List.forall_mem_nil _
    · obtain ⟨x, hx, rfl⟩ := Option.map_eq_some_iff.1 h
      exact List.forall_mem_singleton.2 (by rw [argument_of_ofValue (toOption_eq_some.1 hx), hletter]; rfl)
  · obtain ⟨x, hx, -⟩ := Option.bind_eq_some_iff.1 h
    rw [not_isEssential_of_short? ha hx] at hletter
    cases hletter

theorem part?_of_unflagged?_none (h : unflagged? arg = none) : s.part? arg = some (flagsOf arg, none) := by
  unfold unflagged? at h
  unfold part? flagsOf
  cases hform : Form.of arg with
  | long name value =>
    rw [hform] at h
    cases value with
    | some v => cases h
    | none =>
      dsimp only at h ⊢
      split_ifs at h with hv hq
      · subst hv
        cases s <;> rfl
      · subst hq
        cases s <;> rfl
  | letters b =>
    rw [hform] at h
    dsimp only at h ⊢
    split at h
    · rename_i hb
      rw [cluster?_eq, hb]
      simp [cluster?]
    · cases h
  | dashes =>
    rw [hform] at h
    cases h
  | word =>
    rw [hform] at h
    cases h

theorem part?_of_unflagged? (h : unflagged? arg = some part) :
    s.part? arg = (s.part? part).map fun r => (flagsOf arg ++ r.1, r.2) := by
  unfold unflagged? at h
  have hsame : s.part? arg = (s.part? arg).map fun r => ([] ++ r.1, r.2) := Option.map_id'.symm
  unfold flagsOf
  cases hform : Form.of arg with
  | long name value =>
    rw [hform] at h
    cases value with
    | some v =>
      cases h
      exact hsame
    | none =>
      dsimp only at h ⊢
      split_ifs at h ⊢ with hv hq
      cases h
      exact hsame
  | letters b =>
    rw [hform] at h
    dsimp only at h ⊢
    split at h
    · cases h
    · rename_i y rest hb
      rw [hb, List.head?_cons]
      by_cases hy : y = dash
      · rw [if_pos hy] at h
        rw [if_pos (congrArg some hy)]
        cases h
        exact hsame
      · rw [if_neg hy] at h
        rw [if_neg (by simpa using hy)]
        cases h
        have hpart : s.part? arg = s.cluster? b := by rw [part?, hform]
        have hrest : s.part? (dash :: y :: rest) = s.cluster? (y :: rest) := by rw [part?, form_dash hy]
        rw [hpart, hrest, cluster?_eq, hb]
  | dashes =>
    rw [hform] at h
    cases h
    exact hsame
  | word =>
    rw [hform] at h
    cases h
    exact hsame

theorem essential_of_long {name : Bytes} {value : Option Bytes} {r : List Setting × Option Argument}
    (hform : Form.of arg = .long name value)
    (hname : value = none → name ≠ Utf8.encode "verbose" ∧ name ≠ Utf8.encode "quiet")
    (h : s.part? arg = some r) : s ≠ .top ∧ ∀ x ∈ r.1, x.argument.isEssential = true := by
  simp only [part?, hform] at h
  obtain ⟨a, ha, hset⟩ := Option.bind_eq_some_iff.1 h
  obtain ⟨text, -, hlong⟩ := Option.bind_eq_some_iff.1 ha
  have hmem := (mem_of_long? hlong).1
  cases ht : a.takesValue with
  | true =>
    have he := isEssential_of_takesValue ht
    refine ⟨ne_top_of_mem hmem he (Or.inl ht), ?_⟩
    rw [ht] at hset
    cases value with
    | some v =>
      obtain ⟨x, hx, rfl⟩ := Option.map_eq_some_iff.1 hset
      exact List.forall_mem_singleton.2 (by rw [argument_of_ofValue (toOption_eq_some.1 hx), he])
    | none =>
      cases hset
      exact List.forall_mem_nil _
  | false =>
    rw [ht] at hset
    cases value with
    | some v => cases hset
    | none =>
      obtain ⟨x, hx, rfl⟩ := Option.map_eq_some_iff.1 hset
      have he : a.isEssential = true := by
        rw [← Bool.not_eq_false, isEssential_of_long? ha, not_or]
        exact hname rfl
      refine ⟨ne_top_of_mem hmem he (Or.inr (Option.isSome_of_eq_some hx)), ?_⟩
      exact List.forall_mem_singleton.2 (by rw [argument_of_ofFlag? hx, he])

theorem essential_of_unflagged? {r : List Setting × Option Argument} (h : unflagged? arg = some part)
    (hr : s.part? part = some r) : s ≠ .top ∧ ∀ x ∈ r.1, x.argument.isEssential = true := by
  unfold unflagged? at h
  cases hform : Form.of arg with
  | long name value =>
    rw [hform] at h
    cases value with
    | some v =>
      cases h
      exact essential_of_long hform (fun h => absurd h (Option.some_ne_none v)) hr
    | none =>
      dsimp only at h
      split_ifs at h with hv hq
      cases h
      exact essential_of_long hform (fun _ => ⟨hv, hq⟩) hr
  | letters b =>
    rw [hform] at h
    dsimp only at h
    split at h
    · cases h
    · rename_i y rest hb
      have hy : isVerbosityLetter y = false := by
        have hnot := List.head?_dropWhile_not isVerbosityLetter b
        rw [hb] at hnot
        simpa using hnot
      by_cases hdash : y = dash
      · rw [if_pos hdash] at h
        cases h
        rw [part?, hform] at hr
        dsimp only at hr
        rw [cluster?_eq, hb, hdash, cluster?_dash] at hr
        cases hr
      · rw [if_neg hdash] at h
        cases h
        rw [part?, form_dash hdash] at hr
        exact essential_of_cluster? hy hr
  | dashes =>
    rw [hform] at h
    cases h
    rw [part?_of_dashes hform] at hr
    cases hr
  | word =>
    rw [hform] at h
    cases h
    rw [part?_of_word hform] at hr
    cases hr

theorem eq_or_letters_of_unflagged? (h : unflagged? arg = some part) : part = arg ∨ ∃ b, Form.of part = .letters b := by
  unfold unflagged? at h
  split at h
  · split_ifs at h
    cases h
    exact Or.inl rfl
  · split at h
    · cases h
    · split_ifs at h with hy
      · cases h
        exact Or.inl rfl
      · cases h
        exact Or.inr ⟨_, form_dash hy _⟩
  · cases h
    exact Or.inl rfl

/-! ## All arguments of a scope -/

/-- The argument that waits for its value behind an argument. -/
def waiting? (s : Scope) (arg : Bytes) : Option Argument := (s.part? arg).bind (·.2)

/-- The flags on verbosity in the arguments of a scope. A value and what stands behind two dashes are none. -/
def flags (s : Scope) : Option Argument → List Bytes → List Setting
  | _, [] => []
  | some _, _ :: rest => s.flags none rest
  | none, arg :: rest => if Form.of arg = .dashes then [] else flagsOf arg ++ s.flags (s.waiting? arg) rest

/-- What is left of the arguments without these flags. -/
def unflagged (s : Scope) : Option Argument → List Bytes → List Bytes
  | _, [] => []
  | some _, value :: rest => value :: s.unflagged none rest
  | none, arg :: rest =>
    if Form.of arg = .dashes then arg :: rest
    else (unflagged? arg).toList ++ s.unflagged (s.waiting? arg) rest

theorem exists_of_step?_some {r : List Setting × Option Argument} (h : s.step? (some a) arg = some r) :
    ∃ x, Setting.ofValue a arg = .ok x ∧ r = ([x], none) := by
  rw [step?] at h
  split at h
  · obtain ⟨x, hx, rfl⟩ := Option.map_eq_some_iff.1 h
    exact ⟨x, toOption_eq_some.1 hx, rfl⟩
  · cases h

theorem unflagged_append (front : List Setting) {given given' : Option (List Setting)}
    (h : given' = given.map Setting.essentials ∧ ∀ xs, given = some xs → Setting.flags xs = fs) :
    given'.map (Setting.essentials front ++ ·) = (given.map (front ++ ·)).map Setting.essentials ∧
      ∀ xs, given.map (front ++ ·) = some xs → Setting.flags xs = Setting.flags front ++ fs := by
  obtain ⟨rfl, hflags⟩ := h
  constructor
  · rw [Option.map_map, Option.map_map]
    simp only [Function.comp_def, Setting.essentials_append]
  · intro xs hxs
    obtain ⟨more, hmore, rfl⟩ := Option.map_eq_some_iff.1 hxs
    rw [Setting.flags_append, hflags more hmore]

/-- **What is left of the arguments has the other settings, and those on verbosity are the ones taken out.** -/
theorem settings?_unflagged (waiting : Option Argument) (args : List Bytes) :
    s.settings? waiting (s.unflagged waiting args) = (s.settings? waiting args).map Setting.essentials ∧
      ∀ xs, s.settings? waiting args = some xs → Setting.flags xs = s.flags waiting args := by
  induction args generalizing waiting with
  | nil =>
    cases waiting with
    | none => exact ⟨rfl, by rintro _ ⟨⟩; rfl⟩
    | some a => exact ⟨rfl, by rintro _ ⟨⟩⟩
  | cons arg rest ih =>
    cases waiting with
    | some a =>
      have hdashes : ¬ (some a = none ∧ Form.of arg = .dashes) := fun h => Option.some_ne_none a h.1
      rw [unflagged, flags, settings?, if_neg hdashes, settings?, if_neg hdashes]
      cases hr : s.step? (some a) arg with
      | none => exact ⟨rfl, by rintro _ ⟨⟩⟩
      | some r =>
        obtain ⟨x, hx, rfl⟩ := exists_of_step?_some hr
        have hall : ∀ x' ∈ [x], x'.argument.isEssential = true := by
          refine List.forall_mem_singleton.2 ?_
          rw [argument_of_ofValue hx]
          exact isEssential_of_ofValue hx
        obtain ⟨hflags, hessentials⟩ := Setting.flags_of_essential hall
        have h := unflagged_append [x] (ih none)
        rw [hflags, hessentials] at h
        exact h
    | none =>
      rw [unflagged, flags]
      by_cases hform : Form.of arg = .dashes
      · rw [if_pos hform, if_pos hform, settings?, if_pos ⟨rfl, hform⟩]
        split
        · exact ⟨rfl, by rintro _ ⟨⟩; rfl⟩
        · exact ⟨rfl, by rintro _ ⟨⟩⟩
      · have hall : ∀ x ∈ flagsOf arg, x.argument.isEssential = false := fun _ => isEssential_of_mem_flagsOf
        obtain ⟨hflags, hessentials⟩ := Setting.flags_of_flags hall
        rw [if_neg hform, if_neg hform, settings?, if_neg fun h => hform h.2, step?, waiting?]
        cases hpart : unflagged? arg with
        | none =>
          rw [part?_of_unflagged?_none hpart]
          have h := unflagged_append (flagsOf arg) (ih none)
          rw [hflags, hessentials] at h
          simpa using h
        | some part =>
          have hform' : Form.of part ≠ .dashes := by
            rcases eq_or_letters_of_unflagged? hpart with rfl | ⟨b, hb⟩
            · exact hform
            · rw [hb]
              rintro ⟨⟩
          rw [Option.toList_some, List.singleton_append, settings?, if_neg fun h => hform' h.2, step?,
            part?_of_unflagged? hpart]
          cases hr : s.part? part with
          | none => exact ⟨rfl, by rintro _ ⟨⟩⟩
          | some r =>
            obtain ⟨-, hothers⟩ := essential_of_unflagged? hpart hr
            obtain ⟨hnone, hsame⟩ := Setting.flags_of_essential hothers
            have h := unflagged_append (flagsOf arg ++ r.1) (ih r.2)
            rw [Setting.flags_append, Setting.essentials_append, hflags, hessentials, hnone, hsame, List.nil_append,
              List.append_nil] at h
            exact h

/-- **Arguments are accepted if what is left of them is, and their flags can stand together.** -/
theorem read_unflagged (hs : s ≠ .top) :
    (∃ xs, s.read program args = .ok xs ∧ Setting.essentials xs = ys ∧ Setting.flags xs = fs) ↔
      s.read program (s.unflagged none args) = .ok ys ∧ s.flags none args = fs ∧ Compatible fs := by
  obtain ⟨hleft, hflags⟩ := s.settings?_unflagged none args
  simp only [read_eq_ok_iff hs, once_and_clash?_iff, hleft, Option.map_eq_some_iff]
  constructor
  · rintro ⟨xs, ⟨hxs, hone, hcompatible⟩, rfl, rfl⟩
    rw [Setting.essentials_essentials, Setting.flags_essentials]
    exact ⟨⟨⟨xs, hxs, rfl⟩, hone, Setting.compatible_nil⟩, (hflags xs hxs).symm, hcompatible⟩
  · rintro ⟨⟨⟨xs, hxs, rfl⟩, hone, -⟩, rfl, hcompatible⟩
    rw [Setting.essentials_essentials] at hone
    rw [← hflags xs hxs] at hcompatible ⊢
    exact ⟨xs, ⟨hxs, hone, hcompatible⟩, rfl, rfl⟩

/-- A flag may be put where an argument may stand. -/
theorem flags_insert {flag : Bytes} {front : List Bytes} (hflag : unflagged? flag = none)
    (h : s.steps? waiting front = some (xs, none)) (rest : List Bytes) :
    (s.flags waiting (front ++ flag :: rest)).Perm (flagsOf flag ++ s.flags waiting (front ++ rest)) ∧
      s.unflagged waiting (front ++ flag :: rest) = s.unflagged waiting (front ++ rest) := by
  induction front generalizing waiting xs with
  | nil =>
    cases h
    have hform : Form.of flag ≠ .dashes := by
      intro hform
      rw [unflagged?, hform] at hflag
      cases hflag
    have hwaiting : s.waiting? flag = none := by rw [waiting?, part?_of_unflagged?_none hflag]; rfl
    rw [List.nil_append, flags, unflagged, if_neg hform, if_neg hform, hwaiting, hflag]
    exact ⟨.refl _, rfl⟩
  | cons arg front ih =>
    obtain ⟨ys, between, zs, hr, hsteps, rfl⟩ := steps?_cons.1 h
    obtain ⟨hflags, hleft⟩ := ih hsteps
    cases waiting with
    | some a =>
      obtain ⟨x, -, heq⟩ := exists_of_step?_some hr
      obtain ⟨rfl, rfl⟩ := Prod.mk.inj heq
      rw [List.cons_append, List.cons_append, flags, flags, unflagged, unflagged, hleft]
      exact ⟨hflags, rfl⟩
    | none =>
      have hform : Form.of arg ≠ .dashes := by
        intro hform
        rw [step?, part?_of_dashes hform] at hr
        cases hr
      have hwaiting : s.waiting? arg = between := by
        rw [step?] at hr
        rw [waiting?, hr]
        rfl
      rw [List.cons_append, List.cons_append, flags, flags, unflagged, unflagged, if_neg hform, if_neg hform,
        if_neg hform, if_neg hform, hwaiting, hleft]
      exact ⟨(hflags.append_left _).trans (List.perm_append_comm_assoc ..), rfl⟩

theorem exists_read_iff (hs : s ≠ .top) {task : Task} (taskOf : List Setting → Task)
    (h : ∀ xs, taskOf (Setting.essentials xs) = taskOf xs) :
    (∃ xs, (s.read program args = .ok xs ∧ task = taskOf xs) ∧ Setting.essentials xs = ys ∧ Setting.flags xs = fs) ↔
      (s.read program (s.unflagged none args) = .ok ys ∧ task = taskOf ys) ∧ s.flags none args = fs ∧
        Compatible fs := by
  constructor
  · rintro ⟨xs, ⟨hread, rfl⟩, rfl, rfl⟩
    obtain ⟨hleft, hflags⟩ := (read_unflagged hs).1 ⟨xs, hread, rfl, rfl⟩
    exact ⟨⟨hleft, (h xs).symm⟩, hflags⟩
  · rintro ⟨⟨hleft, rfl⟩, hflags⟩
    obtain ⟨xs, hread, rfl, hxs⟩ := (read_unflagged hs).2 ⟨hleft, hflags⟩
    exact ⟨xs, ⟨hread, h xs⟩, rfl, hxs⟩

end Scope

/-! ## Command lines -/

/-- The scope of the arguments behind the verb. -/
def Verb.scope? : Verb → Option Scope
  | build => some .build
  | scan => some .scan
  | help => none

/-- The flags on verbosity behind the verb. -/
def Verb.flags (v : Verb) (args : List Bytes) : List Setting :=
  match v.scope? with
  | some s => s.flags none args
  | none => []

/-- The arguments behind the verb without their flags. -/
def Verb.unflagged (v : Verb) (args : List Bytes) : List Bytes :=
  match v.scope? with
  | some s => s.unflagged none args
  | none => args

namespace Invocation

/-- The flags on verbosity before the verb. -/
def flagsBefore : List Bytes → List Setting
  | [] => []
  | arg :: rest =>
    if (Verb.ofBytes? arg).isSome ∨ Form.of arg = .dashes then [] else flagsOf arg ++ flagsBefore rest

/-- The flags on verbosity behind the verb. -/
def flagsBehind : List Bytes → List Setting
  | [] => []
  | arg :: rest =>
    match Verb.ofBytes? arg with
    | some v => v.flags rest
    | none => if Form.of arg = .dashes then [] else flagsBehind rest

/-- The arguments before the verb and behind it without these flags. -/
def unflagged : List Bytes → List Bytes
  | [] => []
  | arg :: rest =>
    match Verb.ofBytes? arg with
    | some v => arg :: v.unflagged rest
    | none => if Form.of arg = .dashes then arg :: rest else (unflagged? arg).toList ++ unflagged rest

theorem readTask_unflagged {v : Verb} {task : Task} :
    (∃ inner, readTask program v args = .ok (inner, task) ∧ Setting.essentials inner = ys ∧ Setting.flags inner = fs) ↔
      readTask program v (v.unflagged args) = .ok (ys, task) ∧ v.flags args = fs ∧ Compatible fs := by
  cases v with
  | help => exact iff_of_false (by rintro ⟨_, ⟨⟩, -⟩) (by rintro ⟨⟨⟩, -⟩)
  | build =>
    simp only [readTask_build_eq_ok_iff]
    refine Scope.exists_read_iff (s := .build) (by decide) (fun xs => .build _ _) fun xs => ?_
    rw [Setting.configPath?_essentials, Setting.overrides_essentials]
  | scan =>
    simp only [readTask_scan_eq_ok_iff]
    refine Scope.exists_read_iff (s := .scan) (by decide) (fun xs => .scan _ _ _) fun xs => ?_
    rw [Setting.configPath?_essentials, Setting.overrides_essentials, Setting.contains_json_essentials]

theorem flags_of_part?_top (h : Scope.top.part? arg = some (xs, waiting)) :
    unflagged? arg = none ∧ flagsOf arg = xs ∧ waiting = none ∧ Verb.ofBytes? arg = none ∧ Form.of arg ≠ .dashes := by
  have hflags : unflagged? arg = none := by
    cases hpart : unflagged? arg with
    | none => rfl
    | some part =>
      rw [Scope.part?_of_unflagged? hpart, Option.map_eq_some_iff] at h
      obtain ⟨r, hr, -⟩ := h
      exact absurd rfl (Scope.essential_of_unflagged? hpart hr).1
  have hpart := Scope.part?_of_unflagged?_none (s := .top) hflags
  rw [h] at hpart
  cases hpart
  refine ⟨hflags, rfl, rfl, ?_, ?_⟩
  · rw [Option.eq_none_iff_forall_ne_some]
    intro v hv
    rw [eq_of_ofBytes? hv, Scope.part?_verb] at h
    cases h
  · intro hform
    rw [Scope.part?_of_dashes hform] at h
    cases h

/-- A command line that is taken apart at its verb. -/
theorem parts_of_steps? {v : Verb} {outer : List Setting} (h : Scope.top.steps? none before = some (outer, none))
    (after : List Bytes) :
    flagsBefore (before ++ Utf8.encode v.name :: after) = outer ∧
      flagsBehind (before ++ Utf8.encode v.name :: after) = v.flags after ∧
      unflagged (before ++ Utf8.encode v.name :: after) = Utf8.encode v.name :: v.unflagged after := by
  induction before generalizing outer with
  | nil =>
    cases h
    simp [flagsBefore, flagsBehind, unflagged, Verb.ofBytes?_name]
  | cons arg before ih =>
    obtain ⟨front, waiting, more, hfront, hmore, rfl⟩ := Scope.steps?_cons.1 h
    obtain ⟨hflags, rfl, rfl, hv, hform⟩ := flags_of_part?_top hfront
    obtain ⟨hbefore, hbehind, hleft⟩ := ih hmore
    refine ⟨?_, ?_, ?_⟩
    · rw [List.cons_append, flagsBefore, if_neg (by simp [hv, hform]), hbefore]
    · rw [List.cons_append, flagsBehind, hv, if_neg hform, hbehind]
    · rw [List.cons_append, unflagged, hv, if_neg hform, hflags, hleft]
      rfl

theorem exists_of_unflagged {v : Verb} (heq : unflagged args = before ++ Utf8.encode v.name :: after)
    (h : Scope.top.steps? none before = some (ys, none)) : ∃ front rest,
      args = front ++ Utf8.encode v.name :: rest ∧ Scope.top.steps? none front = some (flagsBefore args, none) := by
  induction args generalizing before ys with
  | nil => cases before <;> cases heq
  | cons arg rest ih =>
    rw [unflagged] at heq
    rw [flagsBefore]
    cases hv : Verb.ofBytes? arg with
    | some v' =>
      rw [hv, eq_of_ofBytes? hv] at heq
      have hnil : Scope.top.steps? none [] = some ([], none) := rfl
      obtain ⟨-, rfl, -⟩ := Scope.verb_unique hnil h heq
      exact ⟨[], rest, by rw [eq_of_ofBytes? hv]; rfl, rfl⟩
    | none =>
      rw [hv] at heq
      dsimp only at heq
      have hverb (h : ∃ w : Verb, arg = Utf8.encode w.name) : False := by
        obtain ⟨w, rfl⟩ := h
        rw [Verb.ofBytes?_name] at hv
        cases hv
      by_cases hform : Form.of arg = .dashes
      · rw [if_pos hform] at heq
        cases before with
        | nil => exact (hverb ⟨v, (List.cons.inj heq).1⟩).elim
        | cons front before =>
          obtain ⟨rfl, -⟩ := List.cons.inj heq
          rw [Scope.steps?, Scope.step?, Scope.part?_of_dashes hform] at h
          cases h
      · rw [if_neg hform] at heq
        rw [if_neg (by simp [hform])]
        cases hpart : unflagged? arg with
        | none =>
          rw [hpart] at heq
          obtain ⟨front, more, rfl, hfront⟩ := ih heq h
          have hstep := Scope.part?_of_unflagged?_none (s := .top) hpart
          exact ⟨arg :: front, more, rfl, Scope.steps?_cons.2 ⟨_, _, _, hstep, hfront, rfl⟩⟩
        | some part =>
          rw [hpart] at heq
          cases before with
          | nil =>
            obtain ⟨rfl, -⟩ := List.cons.inj heq
            have hword : Form.of (Utf8.encode v.name) = .word := by cases v <;> decide
            rcases Scope.eq_or_letters_of_unflagged? hpart with hsame | ⟨b, hb⟩
            · exact (hverb ⟨v, hsame.symm⟩).elim
            · rw [hword] at hb
              cases hb
          | cons front before =>
            obtain ⟨rfl, -⟩ := List.cons.inj heq
            obtain ⟨ys, between, zs, hr, -⟩ := Scope.steps?_cons.1 h
            exact absurd rfl (Scope.essential_of_unflagged? hpart hr).1

theorem isEssential_of_mem_flagsBefore (hx : x ∈ flagsBefore args) : x.argument.isEssential = false := by
  induction args with
  | nil => cases hx
  | cons arg rest ih =>
    rw [flagsBefore] at hx
    split at hx
    · cases hx
    · rcases List.mem_append.1 hx with hx | hx
      · exact isEssential_of_mem_flagsOf hx
      · exact ih hx

theorem verbosityOf_flags (outer inner : List Setting) :
    verbosityOf outer (Setting.flags inner) = verbosityOf outer inner := by
  rw [verbosityOf, verbosityOf, Setting.contains_flags rfl]
  split
  · rw [Setting.count_flags rfl]
  · rfl

variable {first : Bytes} {i : Invocation}

/-- **A command line is accepted if it is without its flags, and those before the verb can stand together, and those
behind it.** -/
theorem ofArguments_flags_iff : ofArguments (first :: args) = .ok i ↔
    Compatible (flagsBefore args) ∧ Compatible (flagsBehind args) ∧
      ∃ task, ofArguments (first :: unflagged args) = .ok ⟨0, false, task⟩ ∧
        i = ⟨verbosityOf (flagsBefore args) (flagsBehind args),
          (flagsBehind args).contains .quiet || (flagsBefore args).contains .quiet, task⟩ := by
  have hnil : Scope.top.steps? none [] = some ([], none) := rfl
  have hcompatible : Compatible (flagsBefore args) ↔
      Once (flagsBefore args) ∧ Scope.clash? (flagsBefore args) = none := by
    rw [Scope.clash?_eq_none_iff]
    exact Setting.compatible_iff fun _ => isEssential_of_mem_flagsBefore
  rw [hcompatible]
  constructor
  · intro h
    obtain ⟨before, outer, v, after, inner, task, rfl, hsteps, hone, hclash, htask, rfl⟩ := ofArguments_eq_ok_iff.1 h
    obtain ⟨hbefore, hbehind, hleft⟩ := parts_of_steps? (v := v) hsteps after
    obtain ⟨hrest, hflags, hinner⟩ := readTask_unflagged.1 ⟨inner, htask, rfl, rfl⟩
    have hnone : (⟨0, false, task⟩ : Invocation) = ⟨verbosityOf [] (Setting.essentials inner),
        (Setting.essentials inner).contains .quiet || List.contains [] Setting.quiet, task⟩ := by
      have hquiet : (Setting.essentials inner).contains .quiet = false := by
        rw [Bool.eq_false_iff, ne_eq, List.contains_iff_mem]
        exact Scope.not_mem_essentials rfl
      rw [verbosityOf_nil (Scope.not_mem_essentials rfl), hquiet]
      rfl
    rw [hbefore, hbehind, hleft, hflags, verbosityOf_flags, Setting.contains_flags rfl]
    refine ⟨⟨hone, hclash⟩, hinner, task, ?_, rfl⟩
    exact (ofArguments_at_eq_ok_iff hnil).2 ⟨List.Pairwise.nil, rfl, _, _, hrest, hnone⟩
  · rintro ⟨⟨hone, hclash⟩, hinner, task, hleft, rfl⟩
    obtain ⟨before', outer', v, after', inner', task', heq, hsteps', -, -, htask, hi⟩ := ofArguments_eq_ok_iff.1 hleft
    obtain ⟨before, after, rfl, hsteps⟩ := exists_of_unflagged heq hsteps'
    obtain ⟨-, hbehind, hrest⟩ := parts_of_steps? (v := v) hsteps after
    rw [hrest] at heq
    obtain ⟨rfl, -, rfl⟩ := Scope.verb_unique hnil hsteps' heq
    rw [hbehind] at hinner ⊢
    obtain ⟨inner, hread, -, hflags⟩ := readTask_unflagged.2 ⟨htask, rfl, hinner⟩
    injection hi with _ _ htask'
    refine ofArguments_eq_ok_iff.2 ⟨before, _, v, after, inner, task, rfl, hsteps, hone, hclash, ?_, ?_⟩
    · rw [htask']
      exact hread
    · rw [← hflags, verbosityOf_flags, Setting.contains_flags rfl]

/-! ## Flags that are moved -/

/-- The command lines differ in the places of their flags only. -/
def Moved (args args' : List Bytes) : Prop :=
  unflagged args = unflagged args' ∧
    (flagsBefore args ++ flagsBehind args).Perm (flagsBefore args' ++ flagsBehind args')

/-- All flags stand before the verb, or all stand behind it. -/
def OneSided (args : List Bytes) : Prop := flagsBefore args = [] ∨ flagsBehind args = []

instance (args args' : List Bytes) : Decidable (Moved args args') := inferInstanceAs (Decidable (_ ∧ _))

instance (args : List Bytes) : Decidable (OneSided args) := inferInstanceAs (Decidable (_ ∨ _))

/-- A flag that is taken to the other side of the verb is moved. -/
theorem moved_across {flag : Bytes} {middle front : List Bytes} {v : Verb} (hflag : unflagged? flag = none)
    (hbefore : Scope.top.steps? none before = some (xs, none))
    (hmiddle : Scope.top.steps? none middle = some (ys, none)) (hv : v.scope? = some s)
    (hfront : s.steps? none front = some (zs, none)) (rest : List Bytes) :
    Moved (before ++ flag :: middle ++ Utf8.encode v.name :: (front ++ rest))
      (before ++ middle ++ Utf8.encode v.name :: (front ++ flag :: rest)) := by
  have hwith : Scope.top.steps? none (before ++ flag :: middle) = some (xs ++ (flagsOf flag ++ ys), none) := by
    have hstep : Scope.top.step? none flag = some (flagsOf flag, none) := Scope.part?_of_unflagged?_none hflag
    rw [Scope.steps?_append hbefore, Scope.steps?_cons.2 ⟨_, _, _, hstep, hmiddle, rfl⟩]
    rfl
  have hwithout : Scope.top.steps? none (before ++ middle) = some (xs ++ ys, none) := by
    rw [Scope.steps?_append hbefore, hmiddle]
    rfl
  obtain ⟨hbefore, hbehind, hleft⟩ := parts_of_steps? (v := v) hwith (front ++ rest)
  obtain ⟨hbefore', hbehind', hleft'⟩ := parts_of_steps? (v := v) hwithout (front ++ flag :: rest)
  obtain ⟨hflags, hunflagged⟩ := Scope.flags_insert hflag hfront rest
  rw [Moved, hbefore, hbehind, hleft, hbefore', hbehind', hleft', Verb.flags, Verb.flags, Verb.unflagged,
    Verb.unflagged, hv]
  refine ⟨congrArg _ hunflagged.symm, ?_⟩
  dsimp only
  refine .trans ?_ (hflags.symm.append_left _)
  simp only [List.append_assoc]
  exact (List.perm_append_comm_assoc ..).append_left xs

theorem verbosityOf_pos_iff {outer inner : List Setting} :
    0 < verbosityOf outer inner ↔ .verbose ∈ inner ∨ .verbose ∈ outer := by
  have hpos (xs : List Setting) : 0 < min maxVerbosity (xs.count .verbose) ↔ .verbose ∈ xs := by
    rw [Nat.lt_min, List.count_pos_iff]
    exact and_iff_right (by decide)
  rw [verbosityOf]
  split
  · rename_i h
    exact iff_of_true ((hpos _).2 (List.contains_iff_mem.1 h)) (Or.inl (List.contains_iff_mem.1 h))
  · rename_i h
    rw [List.contains_iff_mem] at h
    rw [hpos, or_iff_right h]

/-- Where all flags stand on one side, it does not matter which. -/
theorem ofArguments_oneSided_iff (h : OneSided args) : ofArguments (first :: args) = .ok i ↔
    Compatible (flagsBefore args ++ flagsBehind args) ∧ ∃ task,
      ofArguments (first :: unflagged args) = .ok ⟨0, false, task⟩ ∧
        i = ⟨min maxVerbosity ((flagsBefore args ++ flagsBehind args).count .verbose),
          (flagsBefore args ++ flagsBehind args).contains .quiet, task⟩ := by
  have hnil : Compatible [] := Setting.compatible_nil
  rw [ofArguments_flags_iff]
  rcases h with h | h
  · have hverbosity : verbosityOf [] (flagsBehind args) = min maxVerbosity ((flagsBehind args).count .verbose) := by
      rw [verbosityOf]
      split
      · rfl
      · rename_i hnone
        rw [List.contains_iff_mem] at hnone
        rw [List.count_eq_zero.2 hnone]
        rfl
    rw [h, hverbosity, List.nil_append, and_iff_right hnil]
    simp
  · have hverbosity : verbosityOf (flagsBefore args) [] = min maxVerbosity ((flagsBefore args).count .verbose) := rfl
    rw [h, hverbosity, List.append_nil, and_iff_right hnil]
    simp

/-- **Each side of the verb takes flags that can stand together. Those behind it decide how much is told, unless there
is none that asks for more; one of either side can ask for less, so that both can be asked for only where each stands
on a side of its own. Flags that all stand on one side mean the same on the other.** -/
theorem ofArguments_moved (first : Bytes) (args : List Bytes) :
    (∀ i, ofArguments (first :: args) = .ok i ↔ Compatible (flagsBefore args) ∧ Compatible (flagsBehind args) ∧
      ∃ task, ofArguments (first :: unflagged args) = .ok ⟨0, false, task⟩ ∧
        i = ⟨verbosityOf (flagsBefore args) (flagsBehind args),
          (flagsBehind args).contains .quiet || (flagsBefore args).contains .quiet, task⟩) ∧
    (∀ i, ofArguments (first :: args) = .ok i → (i.quiet = true ∧ 0 < i.verbosity ↔
      (.quiet ∈ flagsBefore args ∧ .verbose ∈ flagsBehind args) ∨
        (.verbose ∈ flagsBefore args ∧ .quiet ∈ flagsBehind args))) ∧
    ∀ args', Moved args args' → OneSided args → OneSided args' →
      ∀ i, ofArguments (first :: args) = .ok i ↔ ofArguments (first :: args') = .ok i := by
  refine ⟨fun i => ofArguments_flags_iff, fun i h => ?_, fun args' hmoved hside hside' i => ?_⟩
  · obtain ⟨hbefore, hbehind, task, -, rfl⟩ := ofArguments_flags_iff.1 h
    have hapart {fs : List Setting} (h : Compatible fs) (hq : Setting.quiet ∈ fs) : Setting.verbose ∉ fs := by
      rw [h hq]
      decide
    have hb := hapart hbefore
    have hd := hapart hbehind
    simp only [Bool.or_eq_true, List.contains_iff_mem, verbosityOf_pos_iff]
    tauto
  · obtain ⟨hleft, hperm⟩ := hmoved
    have hquiet : (flagsBefore args ++ flagsBehind args).contains Setting.quiet =
        (flagsBefore args' ++ flagsBehind args').contains Setting.quiet := by
      rw [Bool.eq_iff_iff, List.contains_iff_mem, List.contains_iff_mem, hperm.mem_iff]
    rw [ofArguments_oneSided_iff hside, ofArguments_oneSided_iff hside', hleft, Setting.compatible_perm hperm,
      hperm.count_eq, hquiet]

/-- Two flags before the verb may stand behind it, in another spelling and around a pattern. -/
theorem ofArguments_moved_around :
    let before := ["-vv", "build", "-i", "P.g"].map Utf8.encode
    let behind := ["build", "-v", "-i", "P.g", "--verbose"].map Utf8.encode
    let asked : Invocation := ⟨2, false, .build none { includes := ["P.g"] }⟩
    Moved before behind ∧ OneSided before ∧ OneSided behind ∧
      ofArguments (Utf8.encode "grist" :: before) = .ok asked ∧
      ofArguments (Utf8.encode "grist" :: behind) = .ok asked ∧ ¬ (asked.quiet = true ∧ 0 < asked.verbosity) := by
  intro before behind asked
  have hmoved : Moved before behind := by decide +kernel
  have hbefore : OneSided before := by decide +kernel
  have hbehind : OneSided behind := by decide +kernel
  have hasked : ofArguments (Utf8.encode "grist" :: before) = .ok asked := by
    rw [← toOption_eq_some]
    decide +kernel
  obtain ⟨-, hboth, hmove⟩ := ofArguments_moved (Utf8.encode "grist") before
  refine ⟨hmoved, hbefore, hbehind, hasked, (hmove behind hmoved hbefore hbehind asked).1 hasked, ?_⟩
  rw [hboth asked hasked]
  decide +kernel

/-- On a side of its own each, flags are accepted that are refused on the same side, and fewer of them are counted. -/
theorem ofArguments_moved_apart :
    let together := ["-q", "-v", "build"].map Utf8.encode
    let apart := ["-q", "build", "-v"].map Utf8.encode
    let twice := ["-v", "-v", "build"].map Utf8.encode
    let once := ["-v", "build", "-v"].map Utf8.encode
    Moved together apart ∧ (∀ i, ofArguments (Utf8.encode "grist" :: together) ≠ .ok i) ∧
      ofArguments (Utf8.encode "grist" :: apart) = .ok ⟨1, true, .build none {}⟩ ∧
      Moved twice once ∧ ofArguments (Utf8.encode "grist" :: twice) = .ok ⟨2, false, .build none {}⟩ ∧
      ofArguments (Utf8.encode "grist" :: once) = .ok ⟨1, false, .build none {}⟩ := by
  intro together apart twice once
  refine ⟨by decide +kernel, fun i h => ?_, ?_, by decide +kernel, ?_, ?_⟩
  · rw [← toOption_eq_some] at h
    have hnone : (ofArguments (Utf8.encode "grist" :: together)).toOption = none := by decide +kernel
    rw [hnone] at h
    cases h
  · rw [← toOption_eq_some]
    decide +kernel
  · rw [← toOption_eq_some]
    decide +kernel
  · rw [← toOption_eq_some]
    decide +kernel

end Invocation

end GrammarBatch.CommandLine
