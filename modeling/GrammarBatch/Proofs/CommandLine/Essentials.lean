import GrammarBatch.Proofs.CommandLine.Reading
import Mathlib

/-!
# Command lines without the flags on verbosity

How much is logged has nothing to do with what is done. Of a command line that is accepted, the flags on verbosity
can be left out, wherever they stand, and it asks for the same.

* `Setting.essentials`, `Scope.essentials`, `Invocation.essentials`: settings, arguments and command lines without
  the flags on verbosity;
* `Scope.essentials_insert`, `Invocation.essentialArguments_insert`: such a flag makes no difference to them;
* `Scope.Strips`: what was read of the arguments, and what was read of those that are left;
* `Scope.Strips.readLong`, `Scope.Strips.readCluster`, `Scope.Strips.walk`: it stays so from one argument to the
  next;
* **`Invocation.ofArguments_essentials`**: what is left of a command line asks for the same.
-/

namespace GrammarBatch.CommandLine

variable {program : Option String} {a : Argument} {args : List Bytes} {settings : List Setting}

/-! ## Settings -/

/-- Whether the argument says more than how much is logged. -/
def Argument.isEssential : Argument → Bool
  | verbose | quiet => false
  | _ => true

namespace Setting

/-- The settings without those on verbosity. -/
def essentials (settings : List Setting) : List Setting := settings.filter (·.argument.isEssential)

@[simp] theorem essentials_append (settings settings' : List Setting) :
    essentials (settings ++ settings') = essentials settings ++ essentials settings' := List.filter_append ..

theorem any_argument_essentials (ha : a.isEssential = true) (settings : List Setting) :
    (essentials settings).any (·.argument == a) = settings.any (·.argument == a) := by
  rw [Bool.eq_iff_iff]
  simp only [essentials, List.any_eq_true, List.mem_filter, beq_iff_eq]
  constructor
  · rintro ⟨x, hx, rfl⟩
    exact ⟨x, hx.1, rfl⟩
  · rintro ⟨x, hx, rfl⟩
    exact ⟨x, ⟨hx, ha⟩, rfl⟩

theorem overrides_essentials (settings : List Setting) :
    overrides (essentials settings) = overrides settings := by
  have hlay (o : Overrides) : (essentials settings).foldl lay o = settings.foldl lay o := by
    induction settings generalizing o with
    | nil => rfl
    | cons x settings ih =>
      rw [essentials, List.filter_cons]
      split
      · exact ih _
      · rename_i hx
        have hlay : lay o x = o := by cases x <;> first | rfl | exact absurd rfl hx
        rw [List.foldl_cons, hlay]
        exact ih o
  exact hlay {}

theorem configPath?_essentials (settings : List Setting) :
    configPath? (essentials settings) = configPath? settings := by
  induction settings with
  | nil => rfl
  | cons x settings ih =>
    rw [essentials, List.filter_cons]
    cases x <;> first | exact ih | rfl

theorem contains_json_essentials (settings : List Setting) :
    (essentials settings).contains .json = settings.contains .json := by
  rw [Bool.eq_iff_iff, List.contains_iff_mem, List.contains_iff_mem, essentials, List.mem_filter]
  exact and_iff_left rfl

end Setting

open Setting (essentials)

/-! ## Arguments -/

/-- Whether the byte is a letter that stands for an argument on verbosity. -/
def isVerbosityLetter (x : UInt8) : Bool := x == 0x76 || x == 0x71

/-- What is left of an argument without the flags on verbosity in it, if anything is. -/
def essentialPart? (arg : Bytes) : Option Bytes :=
  match Form.of arg with
  | .long name none =>
    if name = Utf8.encode "verbose" ∨ name = Utf8.encode "quiet" then none else some arg
  | .letters b =>
    match b.dropWhile isVerbosityLetter with
    | [] => none
    | rest => some (dash :: rest)
  | _ => some arg

namespace Scope

/-- Whether an argument, which is not a value, asks for a value that comes next. -/
def waitsAfter (s : Scope) (arg : Bytes) : Bool :=
  match Form.of arg with
  | .long name none => ((Utf8.decode? name).bind s.long?).any (·.takesValue)
  | .letters b =>
    match b.dropWhile isVerbosityLetter with
    | [x] => (s.short? (Char.ofNat x.toNat)).any (·.takesValue)
    | _ => false
  | _ => false

/-- The arguments without the flags on verbosity, where the first one is a value or not. -/
def essentials (s : Scope) : Bool → List Bytes → List Bytes
  | _, [] => []
  | true, value :: rest => value :: s.essentials false rest
  | false, arg :: rest => (essentialPart? arg).toList ++ s.essentials (s.waitsAfter arg) rest

variable {s : Scope} {p p' q : Progress} {setting : Except ValueFault Setting}

theorem isEssential_of_ofValue {value : Bytes} {x : Setting} (h : Setting.ofValue a value = .ok x) :
    a.isEssential = true := by
  cases a <;> first | rfl | cases h

theorem ne_top_of_mem (ha : a ∈ s.arguments) (he : a.isEssential = true)
    (hset : a.takesValue = true ∨ (Setting.ofFlag? a).isSome) : s ≠ .top := by
  have hall : ∀ a ∈ Scope.top.arguments, a.isEssential = true →
      ¬ (a.takesValue = true ∨ (Setting.ofFlag? a).isSome) := by decide
  rintro rfl
  exact hall a ha he hset

theorem isEssential_of_long? {name : Bytes} (h : (Utf8.decode? name).bind s.long? = some a) :
    a.isEssential = false ↔ name = Utf8.encode "verbose" ∨ name = Utf8.encode "quiet" := by
  obtain ⟨text, htext, ha⟩ := Option.bind_eq_some_iff.1 h
  rw [← Utf8.decode?_eq_some_iff, ← Utf8.decode?_eq_some_iff, htext, Option.some.injEq, Option.some.injEq]
  obtain ⟨-, rfl⟩ := mem_of_long? ha
  cases a <;> decide

theorem isEssential_of_takesValue (h : a.takesValue = true) : a.isEssential = true := by
  cases a <;> first | rfl | cases h

theorem isEssential_of_short? {x : UInt8} (hx : x < 0x80) (ha : s.short? (Char.ofNat x.toNat) = some a) :
    x ≠ dash ∧ a.isEssential = !isVerbosityLetter x := by
  have hlt := lt_of_short? ha
  have hbyte : x = UInt8.ofNat (Char.ofNat x.toNat).toNat := (Utf8.ofNat_byte_eq_iff hx hlt).1 rfl
  obtain ⟨-, hc⟩ := mem_of_short? ha
  rw [hbyte]
  generalize Char.ofNat x.toNat = c at hc
  cases a <;> cases hc <;> decide

theorem not_isEssential_of_short? {c : Char} {x : Setting} (ha : s.short? c = some a)
    (hx : Setting.ofFlag? a = some x) : a.isEssential = false := by
  obtain ⟨-, hc⟩ := mem_of_short? ha
  cases a <;> cases hc <;> first | rfl | cases hx

theorem waitsAfter_of_flag {arg : Bytes} (h : essentialPart? arg = none) : s.waitsAfter arg = false := by
  unfold essentialPart? at h
  unfold waitsAfter
  split at h
  · cases ha : (Utf8.decode? _).bind s.long? with
    | none => rfl
    | some a =>
      split_ifs at h with hname
      have he := (isEssential_of_long? ha).2 hname
      cases a <;> first | rfl | cases he
  · rename_i b _
    cases hb : b.dropWhile isVerbosityLetter with
    | nil => rfl
    | cons x rest =>
      rw [hb] at h
      cases h
  · cases h

/-- Whether the argument after these is a value, where the first one is a value or not. -/
def waitsAfterAll (s : Scope) : Bool → List Bytes → Bool
  | waiting, [] => waiting
  | true, _ :: rest => s.waitsAfterAll false rest
  | false, arg :: rest => s.waitsAfterAll (s.waitsAfter arg) rest

/-- A flag on verbosity may be put anywhere but in the place of a value. -/
theorem essentials_insert {flag : Bytes} (hflag : essentialPart? flag = none) (before after : List Bytes)
    {waiting : Bool} (hw : s.waitsAfterAll waiting before = false) :
    s.essentials waiting (before ++ flag :: after) = s.essentials waiting (before ++ after) := by
  induction before generalizing waiting with
  | nil =>
    obtain rfl : waiting = false := hw
    rw [List.nil_append, List.nil_append, essentials, hflag, waitsAfter_of_flag hflag]
    rfl
  | cons arg before ih =>
    cases waiting with
    | true => rw [List.cons_append, List.cons_append, essentials, essentials, ih hw]
    | false => rw [List.cons_append, List.cons_append, essentials, essentials, ih hw]

/-- Once what is pending is settled, the second has what the first one has, but for settings on verbosity. -/
inductive Strips : Progress → Progress → Prop where
  | waiting (settings : List Setting) (a : Argument) :
    Strips ⟨settings, some (a, none)⟩ ⟨Setting.essentials settings, some (a, none)⟩
  | ready {p p' : Progress} (hp : p.awaiting? = none) (hp' : p'.awaiting? = none)
    (h : ∀ q, p.settle = .ok q → p'.settle = .ok ⟨Setting.essentials q.settings, none⟩) : Strips p p'

namespace Strips

theorem settled (settings : List Setting) : Strips ⟨settings, none⟩ ⟨Setting.essentials settings, none⟩ := by
  refine .ready rfl rfl fun q hq => ?_
  cases hq
  rfl

theorem settle (h : Strips p p') (hq : p.settle = .ok q) :
    p'.settle = .ok ⟨Setting.essentials q.settings, none⟩ := by
  cases h with
  | waiting settings a => cases hq
  | ready hp hp' h => exact h q hq

theorem awaiting (h : Strips p p') : p'.awaiting? = p.awaiting? := by
  cases h with
  | waiting settings a => rfl
  | ready hp hp' h => rw [hp, hp']

theorem give (ha : a.isEssential = true) (hx : ∀ x, setting = .ok x → x.argument = a)
    (h : Progress.give ⟨settings, none⟩ a setting = .ok q) :
    Progress.give ⟨Setting.essentials settings, none⟩ a setting = .ok ⟨Setting.essentials q.settings, none⟩ := by
  obtain ⟨hnew, x, rfl, rfl⟩ := Progress.give_eq_ok.1 h
  refine Progress.give_eq_ok.2 ⟨?_, x, rfl, ?_⟩
  · rw [← hnew]
    exact congrArg _ (Setting.any_argument_essentials ha settings)
  · rw [Setting.essentials_append]
    have hone : Setting.essentials [x] = [x] := by
      rw [Setting.essentials, List.filter_cons, hx x rfl, if_pos ha]
      rfl
    rw [hone]

theorem supply (h : Strips p p') (hw : p.awaiting? ≠ none) (value : Bytes) :
    Strips (p.supply value) (p'.supply value) := by
  cases h with
  | waiting settings a =>
    refine .ready rfl rfl fun q hq => ?_
    change Progress.give ⟨settings, none⟩ a (Setting.ofValue a value) = .ok q at hq
    obtain ⟨-, x, hx, -⟩ := Progress.give_eq_ok.1 hq
    exact give (isEssential_of_ofValue hx) (fun y hy => argument_of_ofValue hy) hq
  | ready hp hp' h => exact absurd hp hw

theorem giveValue {value : Bytes} (h : Strips p p') (hq : p.giveValue a value = .ok q) :
    q.awaiting? = none ∧ ∃ q', p'.giveValue a value = .ok q' ∧ Strips q q' := by
  obtain ⟨⟨settings, pending⟩, hs, hq⟩ := bind_eq_ok.1 hq
  obtain rfl : pending = none := Progress.settle_pending hs
  obtain ⟨-, x, hx, rfl⟩ := Progress.give_eq_ok.1 hq
  have hgive := give (isEssential_of_ofValue hx) (fun y hy => argument_of_ofValue hy) hq
  exact ⟨rfl, _, bind_eq_ok.2 ⟨_, h.settle hs, hgive⟩, settled _⟩

theorem await (h : Strips p p') (hq : p.await a = .ok q) :
    q.awaiting? = some a ∧ ∃ q', p'.await a = .ok q' ∧ Strips q q' := by
  obtain ⟨⟨settings, pending⟩, hs, hq⟩ := bind_eq_ok.1 hq
  cases hq
  exact ⟨rfl, _, bind_eq_ok.2 ⟨_, h.settle hs, rfl⟩, .waiting settings a⟩

/-- A flag on verbosity makes no difference to what is left, and any other flag is read there, too. -/
theorem flag (h : Strips p p') (hq : s.flag program p a = .ok q) :
    q.awaiting? = none ∧ (a.isEssential = false → Strips q p') ∧
      (a.isEssential = true → ∃ q', s.flag program p' a = .ok q' ∧ Strips q q') := by
  obtain ⟨⟨settings, pending⟩, x, hs, hx, hgive⟩ := flag_eq_ok.1 hq
  obtain rfl : pending = none := Progress.settle_pending hs
  have harg := argument_of_ofFlag? hx
  obtain ⟨-, y, hy, rfl⟩ := Progress.give_eq_ok.1 hgive
  obtain rfl : x = y := Except.ok.inj hy
  refine ⟨rfl, fun ha => ?_, fun ha => ?_⟩
  · have hnone : Setting.essentials (settings ++ [x]) = Setting.essentials settings := by
      rw [Setting.essentials_append, Setting.essentials, Setting.essentials, List.filter_cons, harg, ha]
      exact List.append_nil _
    refine .ready rfl (h.awaiting.trans (Progress.awaiting_of_settle hs)) fun r hr => ?_
    cases hr
    rw [hnone]
    exact h.settle hs
  · have hgive := give ha (fun z hz => by rw [← Except.ok.inj hz, harg]) hgive
    exact ⟨_, flag_eq_ok.2 ⟨_, x, h.settle hs, hx, hgive⟩, settled _⟩

/-! ### One argument -/

theorem readLong {arg name : Bytes} {value : Option Bytes} (h : Strips p p')
    (hform : Form.of arg = .long name value) (hq : s.readLong program p name value = .ok q) :
    q.awaiting?.isSome = s.waitsAfter arg ∧
      ((essentialPart? arg = none ∧ Strips q p') ∨
        (s ≠ .top ∧ essentialPart? arg = some arg) ∧
          ∃ q', s.readLong program p' name value = .ok q' ∧ Strips q q') := by
  unfold Scope.readLong at hq ⊢
  rw [waitsAfter, essentialPart?, hform]
  cases hname : (Utf8.decode? name).bind s.long? with
  | none =>
    rw [hname] at hq
    cases hq
  | some a =>
    rw [hname] at hq
    obtain ⟨text, -, ha⟩ := Option.bind_eq_some_iff.1 hname
    have hmem := (mem_of_long? ha).1
    have hnames := isEssential_of_long? hname
    have hkept (he : a.isEssential = true) : ¬ (name = Utf8.encode "verbose" ∨ name = Utf8.encode "quiet") :=
      fun hn => Bool.noConfusion ((hnames.2 hn).symm.trans he)
    dsimp only at hq ⊢
    cases value with
    | some v =>
      cases ht : a.takesValue with
      | false =>
        rw [ht] at hq
        cases hq
      | true =>
        rw [ht] at hq
        have htop := ne_top_of_mem hmem (isEssential_of_takesValue ht) (Or.inl ht)
        obtain ⟨hw, hq⟩ := h.giveValue hq
        exact ⟨by rw [hw]; rfl, Or.inr ⟨⟨htop, rfl⟩, hq⟩⟩
    | none =>
      dsimp only
      rw [hname, Option.any_some]
      cases ht : a.takesValue with
      | false =>
        rw [ht] at hq
        obtain ⟨hw, hskip, hread⟩ := h.flag hq
        refine ⟨by rw [hw]; rfl, ?_⟩
        cases he : a.isEssential with
        | false => exact Or.inl ⟨if_pos (hnames.1 he), hskip he⟩
        | true =>
          obtain ⟨-, x, -, hx, -⟩ := flag_eq_ok.1 hq
          have htop := ne_top_of_mem hmem he (Or.inr (Option.isSome_of_eq_some hx))
          exact Or.inr ⟨⟨htop, if_neg (hkept he)⟩, hread he⟩
      | true =>
        rw [ht] at hq
        have he := isEssential_of_takesValue ht
        obtain ⟨hw, hq⟩ := h.await hq
        exact ⟨by rw [hw]; rfl, Or.inr ⟨⟨ne_top_of_mem hmem he (Or.inl ht), if_neg (hkept he)⟩, hq⟩⟩

theorem readCluster {b : Bytes} (h : Strips p p') (hw : p.awaiting? = none)
    (hq : s.readCluster program p b = .ok q) :
    (b.dropWhile isVerbosityLetter = [] ∧ Strips q p' ∧ q.awaiting? = none) ∨
      ∃ x rest, b.dropWhile isVerbosityLetter = x :: rest ∧ x ≠ dash ∧ s ≠ .top ∧
        q.awaiting?.isSome = (match x :: rest with
          | [x] => (s.short? (Char.ofNat x.toNat)).any (·.takesValue)
          | _ => false) ∧
        ∃ q', s.readCluster program p' (x :: rest) = .ok q' ∧ Strips q q' := by
  induction b generalizing p with
  | nil =>
    rw [readCluster_nil] at hq
    cases hq
    exact Or.inl ⟨rfl, h, hw⟩
  | cons x b ih =>
    obtain ⟨hx, a, ha⟩ := exists_short_of_readCluster hq
    obtain ⟨hdash, hletter⟩ := isEssential_of_short? hx ha
    rw [readCluster_cons hx ha] at hq
    rw [List.dropWhile_cons]
    cases ht : a.takesValue with
    | false =>
      rw [ht, if_neg nofun] at hq
      obtain ⟨p₁, hf, hq⟩ := bind_eq_ok.1 hq
      obtain ⟨-, y, -, hy, -⟩ := flag_eq_ok.1 hf
      have he := not_isEssential_of_short? ha hy
      rw [he] at hletter
      obtain ⟨hw, hskip, -⟩ := h.flag hf
      rw [if_pos (by simpa using hletter.symm)]
      exact ih (hskip he) hw hq
    | true =>
      have he := isEssential_of_takesValue ht
      have hkept : isVerbosityLetter x = false := by simpa [he] using hletter
      rw [ht, if_pos rfl] at hq
      rw [hkept, if_neg nofun]
      refine Or.inr ⟨x, b, rfl, hdash, ne_top_of_mem (mem_of_short? ha).1 he (Or.inl ht), ?_⟩
      rw [readCluster_cons hx ha, ht, if_pos rfl]
      cases b with
      | nil =>
        obtain ⟨hw, hq⟩ := h.await hq
        refine ⟨?_, hq⟩
        rw [hw]
        dsimp only
        rw [ha, Option.any_some, ht]
        rfl
      | cons y rest =>
        obtain ⟨hw, hq⟩ := h.giveValue hq
        exact ⟨by rw [hw]; rfl, hq⟩

/-! ### All arguments -/

/-- **Where all arguments are read, those that are left without the flags on verbosity are read, too, and they
give the same settings but for the verbosity.** -/
theorem walk (hs : s ≠ .top) {verb : Option (Verb × List Bytes)} (h : Strips p p')
    (hq : s.walk program p args = .ok (q, verb)) :
    ∃ q', s.walk program p' (s.essentials p.awaiting?.isSome args) = .ok (q', verb) ∧ Strips q q' := by
  induction args generalizing p p' with
  | nil =>
    cases hq
    exact ⟨p', rfl, h⟩
  | cons arg rest ih =>
    have hvalue (hw : p.awaiting? ≠ none) (hq : s.walk program (p.supply arg) rest = .ok (q, verb)) :
        ∃ q', s.walk program (p'.supply arg) (s.essentials false rest) = .ok (q', verb) ∧ Strips q q' := by
      have h := ih (h.supply hw arg) hq
      rwa [Progress.awaiting_supply] at h
    rw [walk_cons (absurd · hs)] at hq
    split at hq
    · rename_i hany
      obtain ⟨a, ha, hany'⟩ := Option.any_eq_true _ _ |>.1 hany
      rw [ha, Option.isSome_some, Scope.essentials, walk_cons (absurd · hs), h.awaiting, if_pos hany]
      exact hvalue (by rw [ha]; nofun) hq
    · rename_i hany
      cases hform : Form.of arg with
      | dashes =>
        rw [hform] at hq
        cases rest with
        | cons next rest => cases hq
        | nil =>
          cases hq
          refine ⟨p', ?_, h⟩
          have hall : s.essentials q.awaiting?.isSome [arg] = [arg] := by
            cases q.awaiting?.isSome with
            | true => rfl
            | false => rw [Scope.essentials, essentialPart?, hform]; rfl
          rw [hall, walk_cons (absurd · hs), h.awaiting, if_neg hany, hform]
      | long name value =>
        rw [hform] at hq
        obtain ⟨p₁, hl, hq⟩ := bind_eq_ok.1 hq
        have hw := awaiting_of_readLong hl
        obtain ⟨hwaits, hread⟩ := h.readLong hform hl
        rw [hw, Option.isSome_none, Scope.essentials, ← hwaits]
        rcases hread with ⟨hnone, hst⟩ | ⟨⟨-, hsome⟩, q', hl', hst⟩
        · rw [hnone]
          exact ih hst hq
        · rw [hsome, Option.toList_some, List.singleton_append, walk_cons (absurd · hs), h.awaiting, if_neg hany,
            hform]
          dsimp only
          rw [hl']
          exact ih hst hq
      | letters b =>
        obtain ⟨x, b', rfl⟩ := form_of_letters hform
        rw [hform] at hq
        obtain ⟨p₁, hl, hq⟩ := bind_eq_ok.1 hq
        have hw := awaiting_of_readCluster hl
        rw [hw, Option.isSome_none, Scope.essentials, essentialPart?, waitsAfter, hform]
        dsimp only
        rcases h.readCluster hw hl with ⟨hnone, hst, hw'⟩ | ⟨y, b, hsome, hdash, -, hwaits, q', hl', hst⟩
        · have h := ih hst hq
          rw [hw'] at h
          rw [hnone]
          exact h
        · rw [hsome]
          dsimp only
          rw [Option.toList_some, List.singleton_append, walk_cons (absurd · hs), h.awaiting, if_neg hany,
            form_dash hdash b]
          dsimp only
          rw [hl']
          have h := ih hst hq
          rw [hwaits] at h
          exact h
      | word =>
        rw [hform] at hq
        dsimp only at hq
        split at hq
        · rename_i hsome
          rw [hsome, Scope.essentials, walk_cons (absurd · hs), h.awaiting, if_neg hany, hform]
          dsimp only
          rw [if_pos hsome]
          exact hvalue (by rw [← Option.isSome_iff_ne_none]; exact hsome) hq
        · cases hq

end Strips

/-! ### Settings -/

theorem not_mem_essentials {x : Setting} (hx : x.argument.isEssential = false) :
    x ∉ Setting.essentials settings := fun hm => by
  rw [Setting.essentials, List.mem_filter, hx] at hm
  exact Bool.noConfusion hm.2

/-- What is left of the arguments gives the settings but for those on verbosity. -/
theorem read_essentials (hs : s ≠ .top) (h : s.read program args = .ok settings) :
    s.read program (s.essentials false args) = .ok (Setting.essentials settings) := by
  obtain ⟨⟨q, verb⟩, hw, h⟩ := bind_eq_ok.1 h
  obtain ⟨r, hr, h⟩ := bind_eq_ok.1 h
  obtain ⟨q', hw', hst⟩ := (Strips.settled []).walk hs hw
  refine bind_eq_ok.2 ⟨_, hw', bind_eq_ok.2 ⟨_, hst.settle hr, ?_⟩⟩
  split at h
  · cases h
  · cases h
    dsimp only
    rw [clash?_eq_none (not_mem_essentials rfl) (not_mem_essentials rfl)]
    rfl

end Scope

/-! ## Command lines -/

/-- The arguments after the verb without the flags on verbosity. -/
def Verb.essentials : Verb → List Bytes → List Bytes
  | build, args => Scope.build.essentials false args
  | scan, args => Scope.scan.essentials false args
  | help, args => args

theorem eq_of_ofBytes? {arg : Bytes} {v : Verb} (h : Verb.ofBytes? arg = some v) : arg = Utf8.encode v.name := by
  have hv : (Utf8.encode v.name == arg) = true :=
    List.find?_some (p := fun v : Verb => Utf8.encode v.name == arg) h
  exact (eq_of_beq hv).symm

namespace Invocation

/-- The arguments before the verb and after it without the flags on verbosity. -/
def essentialArguments : List Bytes → List Bytes
  | [] => []
  | arg :: rest =>
    match Verb.ofBytes? arg with
    | some v => arg :: v.essentials rest
    | none => (essentialPart? arg).toList ++ essentialArguments rest

/-- The command line without the flags on verbosity. -/
def essentials : List Bytes → List Bytes
  | [] => []
  | first :: args => first :: essentialArguments args

/-- A flag on verbosity may be put anywhere before the verb, too. -/
theorem essentialArguments_insert {flag : Bytes} (hflag : essentialPart? flag = none) {before : List Bytes}
    (hbefore : ∀ arg ∈ before, Verb.ofBytes? arg = none) (after : List Bytes) :
    essentialArguments (before ++ flag :: after) = essentialArguments (before ++ after) := by
  induction before with
  | nil =>
    have hnot : Verb.ofBytes? flag = none := by
      rw [Option.eq_none_iff_forall_ne_some]
      intro v hv
      have hkept : ∀ v : Verb, essentialPart? (Utf8.encode v.name) ≠ none := by rintro ⟨⟩ <;> decide
      exact hkept v (eq_of_ofBytes? hv ▸ hflag)
    rw [List.nil_append, List.nil_append, essentialArguments, hnot, hflag]
    rfl
  | cons arg before ih =>
    have hrest := ih fun b hb => hbefore b (List.mem_cons_of_mem arg hb)
    rw [List.cons_append, List.cons_append, essentialArguments, essentialArguments,
      hbefore arg List.mem_cons_self, hrest]

theorem essentialArguments_of_walk {p q : Scope.Progress} {v : Verb} {rest : List Bytes} (h : Scope.Strips p {})
    (hq : Scope.top.walk program p args = .ok (q, some (v, rest))) :
    essentialArguments args = Utf8.encode v.name :: v.essentials rest := by
  induction args generalizing p with
  | nil => cases hq
  | cons arg args ih =>
    have hw : p.awaiting? = none := h.awaiting.symm
    cases hv : Verb.ofBytes? arg with
    | some v' =>
      rw [Scope.walk.eq_def, hw] at hq
      dsimp only at hq
      rw [Option.any_none, if_neg Bool.false_ne_true, if_pos ⟨rfl, rfl⟩, hv] at hq
      cases hq
      rw [essentialArguments, hv, eq_of_ofBytes? hv]
    | none =>
      rw [Scope.walk_cons (fun _ => hv), hw] at hq
      rw [essentialArguments, hv]
      dsimp only
      cases hform : Form.of arg with
      | dashes =>
        rw [hform] at hq
        cases args <;> cases hq
      | long name value =>
        rw [hform] at hq
        obtain ⟨p₁, hl, hq⟩ := bind_eq_ok.1 hq
        obtain ⟨-, ⟨hnone, hst⟩ | ⟨⟨htop, -⟩, -⟩⟩ := h.readLong hform hl
        · rw [hnone]
          exact ih hst hq
        · exact absurd rfl htop
      | letters b =>
        rw [hform] at hq
        obtain ⟨p₁, hl, hq⟩ := bind_eq_ok.1 hq
        rcases h.readCluster hw hl with ⟨hnone, hst, -⟩ | ⟨x, b', -, -, htop, -⟩
        · rw [essentialPart?, hform]
          dsimp only
          rw [hnone]
          exact ih hst hq
        · exact absurd rfl htop
      | word =>
        rw [hform] at hq
        cases hq

theorem readTask_essentials {v : Verb} {task : Task} (h : readTask program v args = .ok (settings, task)) :
    readTask program v (v.essentials args) = .ok (Setting.essentials settings, task) := by
  cases v with
  | help => cases h
  | build =>
    obtain ⟨_, hr, h⟩ := bind_eq_ok.1 h
    cases h
    refine bind_eq_ok.2 ⟨_, Scope.read_essentials (by decide) hr, ?_⟩
    rw [Setting.configPath?_essentials, Setting.overrides_essentials]
    rfl
  | scan =>
    obtain ⟨_, hr, h⟩ := bind_eq_ok.1 h
    cases h
    refine bind_eq_ok.2 ⟨_, Scope.read_essentials (by decide) hr, ?_⟩
    rw [Setting.configPath?_essentials, Setting.overrides_essentials, Setting.contains_json_essentials]
    rfl

/-- **What is left of an accepted command line without the flags on verbosity is accepted, and it asks for the
same.** -/
theorem ofArguments_essentials {argv : List Bytes} {i : Invocation} (h : ofArguments argv = .ok i) :
    ofArguments (essentials argv) = .ok { verbosity := 0, quiet := false, task := i.task } := by
  cases argv with
  | nil => cases h
  | cons first args =>
    obtain ⟨⟨p, command⟩, hw, h⟩ := bind_eq_ok.1 h
    dsimp only at h
    cases command with
    | none =>
      dsimp only at h
      split at h <;> cases h
    | some r =>
      obtain ⟨v, rest⟩ := r
      obtain ⟨⟨inner, task⟩, ht, h⟩ := bind_eq_ok.1 h
      have hrest : essentials (first :: args) = commandLine first v (v.essentials rest) :=
        congrArg (first :: ·) (essentialArguments_of_walk (.settled []) hw)
      have hquiet : (Setting.essentials inner).contains .quiet = false := by
        rw [Bool.eq_false_iff, ne_eq, List.contains_iff_mem]
        exact Scope.not_mem_essentials rfl
      have hname : calledName? (first :: args) = calledName? [first] := rfl
      rw [hname] at ht
      rw [hrest, ofArguments_verb, readTask_essentials ht]
      dsimp only at h
      split at h
      · cases h
      · cases h
        change Except.ok _ = Except.ok _
        dsimp only
        rw [verbosityOf_nil (Scope.not_mem_essentials rfl), hquiet]

end Invocation

end GrammarBatch.CommandLine
