import GrammarBatch.Proofs.CommandLine.Essentials
import Mathlib

/-!
# Which command lines are accepted

A value is looked at late, so that the first fault can be told. Which command lines are accepted, and what they say,
does not depend on that: each argument can be read by itself, if it is known whether it is a value.

* `Setting.Once`: settings that do not repeat what may be given once;
* `Scope.part?`, `Scope.step?`, `Scope.settings?`: the settings of one argument and of all of them, each read at once;
* `Scope.readPart_eq_ok_iff`: one argument adds its settings to those in front of it;
* **`Scope.read_eq_ok_iff`**: the arguments of a command are accepted if each of them has settings, which neither repeat
  nor exclude each other;
* **`Invocation.ofArguments_eq_ok_iff`**: the same for whole command lines.
-/

namespace GrammarBatch.CommandLine

variable {program : Option String} {a : Argument} {arg b : Bytes} {args before rest : List Bytes}
  {x : Setting} {xs ys zs : List Setting} {waiting : Option Argument}

namespace Setting

/-- No argument is given twice that may be given once. -/
def Once (xs : List Setting) : Prop :=
  xs.Pairwise fun x y => x.argument = y.argument → x.argument.isRepeatable = true

theorem Once.left (h : Once (xs ++ ys)) : Once xs := (List.pairwise_append.1 h).1

theorem once_concat : Once (xs ++ [x]) ↔
    Once xs ∧ (!x.argument.isRepeatable && xs.any (·.argument == x.argument)) = false := by
  rw [Once, List.pairwise_append, ← Once]
  refine and_congr_right fun _ => ?_
  simp only [List.pairwise_singleton, List.mem_singleton, forall_eq, true_and]
  cases hr : x.argument.isRepeatable with
  | true =>
    refine iff_of_true (fun y hy heq => ?_) rfl
    rw [heq, hr]
  | false =>
    rw [Bool.not_false, Bool.true_and, List.any_eq_false]
    refine forall_congr' fun y => forall_congr' fun _ => ?_
    constructor
    · intro h heq
      have hy := h (eq_of_beq heq)
      rw [eq_of_beq heq, hr] at hy
      exact Bool.false_ne_true hy
    · exact fun h heq => absurd (beq_iff_eq.2 heq) h

end Setting

open Setting (Once)

theorem Verb.ofBytes?_name (v : Verb) : Verb.ofBytes? (Utf8.encode v.name) = some v := by cases v <;> decide

namespace Scope

/-! ## Reading at once -/

/-- The settings of letters, and the argument that waits for its value behind them. -/
def cluster? (s : Scope) : Bytes → Option (List Setting × Option Argument)
  | [] => some ([], none)
  | y :: b =>
    (s.short? (Char.ofNat y.toNat)).bind fun a =>
      if a.takesValue then
        match b with
        | [] => some ([], some a)
        | z :: rest => (Setting.ofValue a (if z = equals then rest else z :: rest)).toOption.map fun x => ([x], none)
      else (Setting.ofFlag? a).bind fun x => (s.cluster? b).map fun r => (x :: r.1, r.2)

/-- The settings of an argument that is no value, and the argument that waits for its value behind it. -/
def part? (s : Scope) (arg : Bytes) : Option (List Setting × Option Argument) :=
  match Form.of arg with
  | .long name value =>
    ((Utf8.decode? name).bind s.long?).bind fun a =>
      match a.takesValue, value with
      | true, some v => (Setting.ofValue a v).toOption.map fun x => ([x], none)
      | true, none => some ([], some a)
      | false, some _ => none
      | false, none => (Setting.ofFlag? a).map fun x => ([x], none)
  | .letters b => s.cluster? b
  | .dashes | .word => none

/-- The settings of an argument, which is a value if `waiting` is an argument that waits for one. -/
def step? (s : Scope) (waiting : Option Argument) (arg : Bytes) : Option (List Setting × Option Argument) :=
  match waiting with
  | none => s.part? arg
  | some a =>
    if a.takesAnything ∨ Form.of arg = .word then
      (Setting.ofValue a arg).toOption.map fun x => ([x], none)
    else none

/-- The settings of arguments, and the argument that waits for its value behind them. -/
def steps? (s : Scope) : Option Argument → List Bytes → Option (List Setting × Option Argument)
  | waiting, [] => some ([], waiting)
  | waiting, arg :: rest =>
    (s.step? waiting arg).bind fun r => (s.steps? r.2 rest).map fun t => (r.1 ++ t.1, t.2)

/-- The settings of all arguments of a command. Two dashes may only be the last of them. -/
def settings? (s : Scope) : Option Argument → List Bytes → Option (List Setting)
  | waiting, [] => if waiting = none then some [] else none
  | waiting, arg :: rest =>
    if waiting = none ∧ Form.of arg = .dashes then if rest = [] then some [] else none
    else (s.step? waiting arg).bind fun r => (s.settings? r.2 rest).map (r.1 ++ ·)

variable {s : Scope} {p q : Progress}

theorem part?_of_dashes (h : Form.of arg = .dashes) : s.part? arg = none := by
  rw [part?, h]

theorem part?_of_word (h : Form.of arg = .word) : s.part? arg = none := by
  rw [part?, h]

theorem steps?_cons {next : Option Argument} : s.steps? waiting (arg :: rest) = some (xs, next) ↔
    ∃ ys between zs, s.step? waiting arg = some (ys, between) ∧ s.steps? between rest = some (zs, next) ∧
      xs = ys ++ zs := by
  rw [steps?, Option.bind_eq_some_iff]
  constructor
  · rintro ⟨⟨ys, between⟩, hstep, h⟩
    obtain ⟨⟨zs, _⟩, hsteps, heq⟩ := Option.map_eq_some_iff.1 h
    obtain ⟨rfl, rfl⟩ := Prod.mk.inj heq
    exact ⟨ys, between, zs, hstep, hsteps, rfl⟩
  · rintro ⟨ys, between, zs, hstep, hsteps, rfl⟩
    exact ⟨_, hstep, Option.map_eq_some_iff.2 ⟨_, hsteps, rfl⟩⟩

theorem steps?_append {next : Option Argument} (h : s.steps? waiting args = some (xs, next)) (rest : List Bytes) :
    s.steps? waiting (args ++ rest) = (s.steps? next rest).map fun t => (xs ++ t.1, t.2) := by
  induction args generalizing waiting xs with
  | nil =>
    cases h
    exact Option.map_id'.symm
  | cons arg args ih =>
    obtain ⟨ys, between, zs, hstep, hsteps, rfl⟩ := steps?_cons.1 h
    rw [List.cons_append, steps?, hstep, Option.bind_some, ih hsteps, Option.map_map]
    simp only [Function.comp_def, List.append_assoc]

/-- What has been read in front does not matter for what comes behind. -/
theorem settings?_append (h : s.steps? waiting args = some (xs, none)) (rest : List Bytes) :
    s.settings? waiting (args ++ rest) = (s.settings? none rest).map (xs ++ ·) := by
  induction args generalizing waiting xs with
  | nil =>
    cases h
    exact Option.map_id'.symm
  | cons arg args ih =>
    obtain ⟨ys, between, zs, hstep, hsteps, rfl⟩ := steps?_cons.1 h
    have hdashes : ¬ (waiting = none ∧ Form.of arg = .dashes) := by
      rintro ⟨rfl, hform⟩
      rw [step?, part?_of_dashes hform] at hstep
      cases hstep
    rw [List.cons_append, settings?, if_neg hdashes, hstep, Option.bind_some, ih hsteps, Option.map_map]
    simp only [Function.comp_def, List.append_assoc]

theorem lt_of_short_byte {y : UInt8} (h : s.short? (Char.ofNat y.toNat) = some a) : y < 0x80 := by
  have hlt := lt_of_short? h
  have hnat : (Char.ofNat y.toNat).toNat = y.toNat :=
    Utf8.toNat_ofNat_of_valid (Or.inl (Nat.lt_trans y.toNat_lt (by decide)))
  rw [hnat] at hlt
  exact UInt8.lt_iff_toNat_lt.2 hlt

/-! ## Progress -/

/-- Settings, and an argument that waits for its value. -/
def Progress.of (xs : List Setting) (waiting : Option Argument) : Progress := ⟨xs, waiting.map (·, none)⟩

/-- What was read comes to these settings, and to this argument that waits for its value. -/
def Progress.Stands (p : Progress) (xs : List Setting) : Option Argument → Prop
  | none => p.settle = .ok (.of xs none)
  | some a => p = .of xs (some a)

namespace Progress

theorem of_inj {waiting' : Option Argument} : of xs waiting = of ys waiting' ↔ xs = ys ∧ waiting = waiting' := by
  cases waiting <;> cases waiting' <;> simp [of]

theorem stands_of {waiting' : Option Argument} : (of xs waiting).Stands ys waiting' ↔ ys = xs ∧ waiting' = waiting := by
  cases waiting <;> cases waiting' <;> simp [of, Stands, settle, refuse, eq_comm]

theorem exists_of_awaiting (h : p.awaiting? = some a) : ∃ ys, p = of ys (some a) := by
  obtain ⟨settings, pending⟩ := p
  unfold awaiting? at h
  split at h
  · rename_i hp
    cases h
    exact ⟨settings, congrArg (Progress.mk settings) hp⟩
  · cases h

theorem Stands.awaiting (h : p.Stands xs waiting) : p.awaiting? = waiting := by
  cases waiting with
  | none => exact awaiting_of_settle h
  | some a =>
    rw [show p = of xs (some a) from h]
    rfl

theorem give_of (hone : Once xs) {setting : Except ValueFault Setting} (hs : ∀ x, setting = .ok x → x.argument = a) :
    (of xs none).give a setting = .ok q ↔ ∃ x, setting = .ok x ∧ Once (xs ++ [x]) ∧ q = .of (xs ++ [x]) none := by
  rw [give_eq_ok]
  constructor
  · rintro ⟨hnew, x, hx, rfl⟩
    refine ⟨x, hx, Setting.once_concat.2 ⟨hone, ?_⟩, rfl⟩
    rw [hs x hx]
    exact hnew
  · rintro ⟨x, hx, hone, rfl⟩
    refine ⟨?_, x, hx, rfl⟩
    rw [← hs x hx]
    exact (Setting.once_concat.1 hone).2

theorem settle_supply (hone : Once xs) {value : Bytes} : ((of xs (some a)).supply value).settle = .ok q ↔
    ∃ x, Setting.ofValue a value = .ok x ∧ Once (xs ++ [x]) ∧ q = .of (xs ++ [x]) none :=
  give_of hone fun _ => argument_of_ofValue

theorem once_settle (hone : Once p.settings) (h : p.settle = .ok q) : Once q.settings := by
  obtain ⟨settings, pending⟩ := p
  unfold settle at h
  split at h
  · cases h
    exact hone
  · cases h
  · have hsettings : Once settings := hone
    obtain ⟨x, -, hone, rfl⟩ := (give_of hsettings fun _ => argument_of_ofValue).1 h
    exact hone

theorem exists_of_settle (h : p.settle = .ok q) : ∃ ys, q = of ys none := by
  obtain ⟨settings, pending⟩ := q
  obtain rfl : pending = none := settle_pending h
  exact ⟨settings, rfl⟩

end Progress

open Progress (of stands_of)

/-! ## One argument -/

theorem flag_of (hone : Once ys) : s.flag program (of ys none) a = .ok q ↔
    ∃ x, Setting.ofFlag? a = some x ∧ Once (ys ++ [x]) ∧ q = of (ys ++ [x]) none := by
  rw [flag_eq_ok]
  constructor
  · rintro ⟨_, x, ⟨⟩, hx, hq⟩
    obtain ⟨_, ⟨⟩, hone, rfl⟩ := (Progress.give_of hone fun y hy => by
      rw [← Except.ok.inj hy, argument_of_ofFlag? hx]).1 hq
    exact ⟨x, hx, hone, rfl⟩
  · rintro ⟨x, hx, hone', rfl⟩
    exact ⟨_, x, rfl, hx, (Progress.give_of hone fun y hy => by
      rw [← Except.ok.inj hy, argument_of_ofFlag? hx]).2 ⟨x, rfl, hone', rfl⟩⟩

theorem giveValue_of (hone : Once ys) {value : Bytes} : (of ys none).giveValue a value = .ok q ↔
    ∃ x, Setting.ofValue a value = .ok x ∧ Once (ys ++ [x]) ∧ q = of (ys ++ [x]) none :=
  Progress.give_of hone fun _ => argument_of_ofValue

theorem await_of : (of ys none).await a = .ok q ↔ q = of ys (some a) := by
  change Except.ok _ = Except.ok q ↔ _
  rw [Except.ok.injEq, eq_comm]
  rfl

theorem refuse_ne_ok (m : Misuse) (q : Progress) : refuse m ≠ .ok q := by
  rintro ⟨⟩

/-- What an argument gives on its own comes to this behind other settings. -/
def Adds (given : Option (List Setting × Option Argument)) (ys : List Setting) (q : Progress) : Prop :=
  ∃ xs waiting, given = some (xs, waiting) ∧ Once (ys ++ xs) ∧ q = of (ys ++ xs) waiting

theorem not_adds_none : ¬ Adds none ys q := by
  rintro ⟨_, _, ⟨⟩, -⟩

theorem adds_some : Adds (some (xs, waiting)) ys q ↔ Once (ys ++ xs) ∧ q = of (ys ++ xs) waiting := by
  constructor
  · rintro ⟨_, _, ⟨⟩, h⟩
    exact h
  · exact fun h => ⟨xs, waiting, rfl, h⟩

theorem adds_map {given : Option Setting} : Adds (given.map fun x => ([x], none)) ys q ↔
    ∃ x, given = some x ∧ Once (ys ++ [x]) ∧ q = of (ys ++ [x]) none := by
  cases given with
  | none => simp [not_adds_none]
  | some x => simp [adds_some]

theorem adds_cons {given : Option Setting} {more : Option (List Setting × Option Argument)} :
    Adds (given.bind fun x => more.map fun r => (x :: r.1, r.2)) ys q ↔
      ∃ x, given = some x ∧ Once (ys ++ [x]) ∧ Adds more (ys ++ [x]) q := by
  cases given with
  | none => simp [not_adds_none]
  | some x =>
    cases more with
    | none => simp [not_adds_none]
    | some r =>
      obtain ⟨xs, waiting⟩ := r
      have hall : ys ++ x :: xs = ys ++ [x] ++ xs := List.append_cons ..
      simp only [Option.bind_some, Option.map_some, adds_some, Option.some.injEq, exists_eq_left', hall]
      exact ⟨fun h => ⟨h.1.left, h⟩, fun h => h.2⟩

theorem readCluster_of (hone : Once ys) :
    s.readCluster program (of ys none) b = .ok q ↔ Adds (s.cluster? b) ys q := by
  induction b generalizing ys with
  | nil =>
    rw [readCluster_nil, cluster?, adds_some, List.append_nil, Except.ok.injEq, eq_comm, and_iff_right hone]
  | cons y b ih =>
    cases ha : s.short? (Char.ofNat y.toNat) with
    | none =>
      have hrefused : s.readCluster program (of ys none) (y :: b) ≠ .ok q := by
        intro h
        obtain ⟨-, a, ha'⟩ := exists_short_of_readCluster h
        rw [ha] at ha'
        cases ha'
      rw [cluster?, ha]
      exact iff_of_false hrefused not_adds_none
    | some a =>
      have hy : y < 0x80 := lt_of_short_byte ha
      rw [readCluster_cons hy ha, cluster?, ha, Option.bind_some]
      split
      · cases b with
        | nil =>
          dsimp only
          rw [await_of, adds_some, List.append_nil, and_iff_right hone]
        | cons z rest =>
          dsimp only
          rw [giveValue_of hone, adds_map]
          simp only [toOption_eq_some]
      · rw [bind_eq_ok, adds_cons]
        simp only [flag_of hone]
        constructor
        · rintro ⟨_, ⟨x, hx, hone', rfl⟩, hq⟩
          exact ⟨x, hx, hone', (ih hone').1 hq⟩
        · rintro ⟨x, hx, hone', hq⟩
          exact ⟨_, ⟨x, hx, hone', rfl⟩, (ih hone').2 hq⟩

theorem readLong_of (hone : Once ys) {name : Bytes} {value : Option Bytes} (h : Form.of arg = .long name value) :
    s.readLong program (of ys none) name value = .ok q ↔ Adds (s.part? arg) ys q := by
  unfold readLong
  simp only [part?, h]
  cases hname : (Utf8.decode? name).bind s.long? with
  | none => exact iff_of_false (refuse_ne_ok _ _) not_adds_none
  | some a =>
    dsimp only
    rw [Option.bind_some]
    cases a.takesValue with
    | true =>
      cases value with
      | some v =>
        dsimp only
        rw [giveValue_of hone, adds_map]
        simp only [toOption_eq_some]
      | none =>
        dsimp only
        rw [await_of, adds_some, List.append_nil, and_iff_right hone]
    | false =>
      cases value with
      | some v => exact iff_of_false (refuse_ne_ok _ _) not_adds_none
      | none =>
        dsimp only
        rw [flag_of hone, adds_map]

/-- Reads an argument that is no value. -/
def readPart (s : Scope) (program : Option String) (p : Progress) (arg : Bytes) : Except Stop Progress :=
  match Form.of arg with
  | .long name value => s.readLong program p name value
  | .letters b => s.readCluster program p b
  | .dashes | .word => refuse (s.stray false arg)

theorem readPart_of (hone : Once ys) :
    s.readPart program (of ys none) arg = .ok q ↔ Adds (s.part? arg) ys q := by
  cases hform : Form.of arg with
  | long name value =>
    rw [← readLong_of hone hform, readPart, hform]
  | letters b =>
    rw [readPart, part?, hform]
    exact readCluster_of hone
  | dashes =>
    rw [part?_of_dashes hform, readPart, hform]
    exact iff_of_false (refuse_ne_ok _ _) not_adds_none
  | word =>
    rw [part?_of_word hform, readPart, hform]
    exact iff_of_false (refuse_ne_ok _ _) not_adds_none

theorem settle_bind (g : Progress → Except Stop Progress) : (p.settle >>= g) = .ok q ↔
    ∃ ys, p.settle = .ok (of ys none) ∧ ((of ys none).settle >>= g) = .ok q := by
  rw [bind_eq_ok]
  constructor
  · rintro ⟨p₀, hs, hq⟩
    obtain ⟨ys, rfl⟩ := Progress.exists_of_settle hs
    exact ⟨ys, hs, hq⟩
  · rintro ⟨ys, hs, hq⟩
    exact ⟨_, hs, hq⟩

theorem readCluster_settle {y : UInt8} : s.readCluster program p (y :: b) = .ok q ↔
    ∃ ys, p.settle = .ok (of ys none) ∧ s.readCluster program (of ys none) (y :: b) = .ok q := by
  cases ha : s.short? (Char.ofNat y.toNat) with
  | none =>
    have hrefused (p : Progress) : s.readCluster program p (y :: b) ≠ .ok q := by
      intro h
      obtain ⟨-, a, ha'⟩ := exists_short_of_readCluster h
      rw [ha] at ha'
      cases ha'
    simp only [hrefused, and_false, exists_false]
  | some a =>
    have hy : y < 0x80 := lt_of_short_byte ha
    simp only [readCluster_cons hy ha]
    split
    · cases b with
      | nil => exact settle_bind _
      | cons z rest => exact settle_bind _
    · have hflag (p₁ : Progress) : s.flag program p a = .ok p₁ ↔
          ∃ ys, p.settle = .ok (of ys none) ∧ s.flag program (of ys none) a = .ok p₁ := settle_bind _
      simp only [bind_eq_ok, hflag]
      constructor
      · rintro ⟨p₁, ⟨ys, hs, hf⟩, hq⟩
        exact ⟨ys, hs, p₁, hf, hq⟩
      · rintro ⟨ys, hs, p₁, hf, hq⟩
        exact ⟨p₁, ⟨ys, hs, hf⟩, hq⟩

theorem readLong_settle {name : Bytes} {value : Option Bytes} : s.readLong program p name value = .ok q ↔
    ∃ ys, p.settle = .ok (of ys none) ∧ s.readLong program (of ys none) name value = .ok q := by
  unfold readLong
  cases (Utf8.decode? name).bind s.long? with
  | none => exact iff_of_false (refuse_ne_ok _ _) (by rintro ⟨ys, -, ⟨⟩⟩)
  | some a =>
    dsimp only
    cases a.takesValue <;> cases value
    · exact settle_bind _
    · exact iff_of_false (refuse_ne_ok _ _) (by rintro ⟨ys, -, ⟨⟩⟩)
    · exact settle_bind _
    · exact settle_bind _

/-- **An argument that is no value settles what is pending, and adds its own settings.** -/
theorem readPart_eq_ok_iff (hone : Once p.settings) : s.readPart program p arg = .ok q ↔
    ∃ ys, p.settle = .ok (of ys none) ∧ Adds (s.part? arg) ys q := by
  have hsettle : s.readPart program p arg = .ok q ↔
      ∃ ys, p.settle = .ok (of ys none) ∧ s.readPart program (of ys none) arg = .ok q := by
    unfold readPart
    cases hform : Form.of arg with
    | long name value => exact readLong_settle
    | letters b =>
      obtain ⟨y, b, rfl⟩ := form_of_letters hform
      exact readCluster_settle
    | dashes | word => exact iff_of_false (refuse_ne_ok _ _) (by rintro ⟨ys, -, ⟨⟩⟩)
  rw [hsettle]
  refine exists_congr fun ys => and_congr_right fun hs => ?_
  exact readPart_of (Progress.once_settle hone hs)

/-! ## All arguments of a command -/

/-- The arguments are read up to their end, and all values in them. -/
def Reads (s : Scope) (program : Option String) (p : Progress) (args : List Bytes) (zs : List Setting) : Prop :=
  ∃ q, s.walk program p args = .ok (q, none) ∧ q.settle = .ok (of zs none)

/-- What was read so far, and what is to come, make up these settings. -/
def Completes (s : Scope) (p : Progress) (args : List Bytes) (zs : List Setting) : Prop :=
  ∃ ys waiting xs, p.Stands ys waiting ∧ s.settings? waiting args = some xs ∧ zs = ys ++ xs ∧ Once zs

theorem completes_nil (hone : Once p.settings) : s.Completes p [] zs ↔ p.settle = .ok (of zs none) := by
  constructor
  · rintro ⟨ys, _ | a, xs, hp, hxs, rfl, -⟩
    · cases hxs
      rw [List.append_nil]
      exact hp
    · cases hxs
  · exact fun h => ⟨zs, none, [], h, rfl, (List.append_nil _).symm, Progress.once_settle hone h⟩

theorem stands_supply (hone : Once ys) : ((of ys (some a)).supply arg).Stands xs waiting ↔
    waiting = none ∧ ∃ x, Setting.ofValue a arg = .ok x ∧ Once (ys ++ [x]) ∧ xs = ys ++ [x] := by
  cases waiting with
  | none =>
    rw [and_iff_right rfl]
    refine (Progress.settle_supply hone).trans ?_
    simp only [Progress.of_inj, and_true]
  | some a' => exact iff_of_false (by rintro ⟨⟩) (by rintro ⟨⟨⟩, -⟩)

theorem completes_supply (hone : Once ys) (hvalue : a.takesAnything = true ∨ Form.of arg = .word) :
    s.Completes (of ys (some a)) (arg :: rest) zs ↔ s.Completes ((of ys (some a)).supply arg) rest zs := by
  have hdashes : ¬ (some a = none ∧ Form.of arg = .dashes) := fun h => Option.some_ne_none a h.1
  simp only [Completes, stands_of, stands_supply hone]
  constructor
  · rintro ⟨_, _, xs, ⟨rfl, rfl⟩, hxs, rfl, hzs⟩
    rw [settings?, if_neg hdashes, step?, if_pos hvalue, Option.bind_eq_some_iff] at hxs
    obtain ⟨r, hr, hxs⟩ := hxs
    obtain ⟨x, hx, rfl⟩ := Option.map_eq_some_iff.1 hr
    obtain ⟨more, hmore, rfl⟩ := Option.map_eq_some_iff.1 hxs
    dsimp only at hzs ⊢
    rw [← List.append_assoc] at hzs ⊢
    exact ⟨_, none, more, ⟨rfl, x, toOption_eq_some.1 hx, hzs.left, rfl⟩, hmore, rfl, hzs⟩
  · rintro ⟨_, _, xs, ⟨rfl, x, hx, -, rfl⟩, hxs, rfl, hzs⟩
    refine ⟨ys, some a, x :: xs, ⟨rfl, rfl⟩, ?_, (List.append_cons ..).symm, hzs⟩
    rw [settings?, if_neg hdashes, step?, if_pos hvalue, hx]
    change (s.settings? none rest).map _ = _
    rw [hxs]
    rfl

theorem completes_part (hw : p.awaiting? = none) (hform : Form.of arg ≠ .dashes) :
    s.Completes p (arg :: rest) zs ↔ ∃ q, (∃ ys, p.settle = .ok (of ys none) ∧ Adds (s.part? arg) ys q) ∧
      s.Completes q rest zs := by
  have hdashes : ¬ ((none : Option Argument) = none ∧ Form.of arg = .dashes) := fun h => hform h.2
  constructor
  · rintro ⟨ys, waiting, xs, hp, hxs, rfl, hzs⟩
    obtain rfl : none = waiting := hw.symm.trans hp.awaiting
    rw [settings?, if_neg hdashes, step?, Option.bind_eq_some_iff] at hxs
    obtain ⟨⟨front, waiting⟩, hr, hxs⟩ := hxs
    obtain ⟨more, hmore, rfl⟩ := Option.map_eq_some_iff.1 hxs
    dsimp only at hmore hzs ⊢
    rw [← List.append_assoc] at hzs ⊢
    exact ⟨_, ⟨ys, hp, front, waiting, hr, hzs.left, rfl⟩, _, waiting, more, stands_of.2 ⟨rfl, rfl⟩, hmore, rfl, hzs⟩
  · rintro ⟨q, ⟨ys, hp, front, waiting, hr, -, rfl⟩, _, _, xs, hq, hxs, rfl, hzs⟩
    obtain ⟨rfl, rfl⟩ := stands_of.1 hq
    refine ⟨ys, none, front ++ xs, hp, ?_, List.append_assoc .., hzs⟩
    rw [settings?, if_neg hdashes, step?, hr, Option.bind_some, hxs]
    rfl

theorem walk_part (hverb : s = .top → Verb.ofBytes? arg = none) (hw : p.awaiting? = none)
    (hform : Form.of arg ≠ .dashes) :
    s.walk program p (arg :: rest) = s.readPart program p arg >>= fun p => s.walk program p rest := by
  rw [walk_cons hverb, hw, readPart]
  cases hf : Form.of arg with
  | dashes => exact absurd hf hform
  | _ => rfl

theorem reads_cons_iff (hs : s ≠ .top) (hw : p.awaiting? = none) (hform : Form.of arg ≠ .dashes) :
    s.Reads program p (arg :: rest) zs ↔ ∃ q, s.readPart program p arg = .ok q ∧ s.Reads program q rest zs := by
  unfold Reads
  rw [walk_part (absurd · hs) hw hform]
  simp only [bind_eq_ok]
  constructor
  · rintro ⟨q, ⟨p₁, hp₁, hq⟩, hsettle⟩
    exact ⟨p₁, hp₁, q, hq, hsettle⟩
  · rintro ⟨p₁, hp₁, q, hq, hsettle⟩
    exact ⟨q, ⟨p₁, hp₁, hq⟩, hsettle⟩

theorem reads_dashes (hs : s ≠ .top) (hone : Once p.settings) (hw : p.awaiting? = none)
    (hform : Form.of arg = .dashes) : s.Reads program p (arg :: rest) zs ↔ s.Completes p (arg :: rest) zs := by
  have hcompletes : s.Completes p (arg :: rest) zs ↔ rest = [] ∧ p.settle = .ok (of zs none) := by
    constructor
    · rintro ⟨ys, waiting, xs, hp, hxs, rfl, hzs⟩
      obtain rfl : none = waiting := hw.symm.trans hp.awaiting
      rw [settings?, if_pos ⟨rfl, hform⟩] at hxs
      split at hxs
      · rename_i hrest
        cases hxs
        rw [List.append_nil]
        exact ⟨hrest, hp⟩
      · cases hxs
    · rintro ⟨rfl, hp⟩
      refine ⟨zs, none, [], hp, ?_, (List.append_nil _).symm, Progress.once_settle hone hp⟩
      rw [settings?, if_pos ⟨rfl, hform⟩, if_pos rfl]
  unfold Reads
  rw [hcompletes, walk_cons (absurd · hs), hw, hform]
  cases rest with
  | nil =>
    constructor
    · rintro ⟨_, ⟨⟩, h⟩
      exact ⟨rfl, h⟩
    · exact fun h => ⟨p, rfl, h.2⟩
  | cons next rest => exact iff_of_false (by rintro ⟨_, ⟨⟩, -⟩) (fun h => List.cons_ne_nil _ _ h.1)

theorem not_reads_waiting (hs : s ≠ .top) (hvalue : ¬ (a.takesAnything = true ∨ Form.of arg = .word)) :
    ¬ s.Reads program (of ys (some a)) (arg :: rest) zs := by
  rw [not_or] at hvalue
  have hw : (of ys (some a)).awaiting? = some a := rfl
  have hany : ¬ ((some a).any (·.takesAnything) = true) := hvalue.1
  rintro ⟨q, hq, hsettle⟩
  rw [walk_cons (absurd · hs), hw, if_neg hany] at hq
  cases hform : Form.of arg with
  | dashes =>
    rw [hform] at hq
    cases rest <;> cases hq
    cases hsettle
  | long name value =>
    rw [hform] at hq
    obtain ⟨p₁, hl, -⟩ := bind_eq_ok.1 hq
    exact absurd (awaiting_of_readLong hl) (Option.some_ne_none a)
  | letters b =>
    rw [hform] at hq
    obtain ⟨y, b, rfl⟩ := form_of_letters hform
    obtain ⟨p₁, hl, -⟩ := bind_eq_ok.1 hq
    exact absurd (awaiting_of_readCluster hl) (Option.some_ne_none a)
  | word => exact hvalue.2 hform

theorem not_completes_waiting (hvalue : ¬ (a.takesAnything = true ∨ Form.of arg = .word)) :
    ¬ s.Completes (of ys (some a)) (arg :: rest) zs := by
  rintro ⟨ys', waiting, xs, hp, hxs, -⟩
  obtain ⟨-, rfl⟩ := stands_of.1 hp
  rw [settings?, if_neg (fun h => Option.some_ne_none a h.1), step?, if_neg hvalue] at hxs
  cases hxs

theorem walk_supply (hs : s ≠ .top) (hvalue : a.takesAnything = true ∨ Form.of arg = .word) :
    s.walk program (of ys (some a)) (arg :: rest) = s.walk program ((of ys (some a)).supply arg) rest := by
  have hw : (of ys (some a)).awaiting? = some a := rfl
  rw [walk_cons (absurd · hs), hw, Option.any_some]
  split
  · rfl
  · rename_i hany
    rw [hvalue.resolve_left hany]
    rfl

/-- **What is read late is what is read at once.** -/
theorem reads_iff (hs : s ≠ .top) (hone : Once p.settings) :
    s.Reads program p args zs ↔ s.Completes p args zs := by
  induction args generalizing p with
  | nil =>
    rw [completes_nil hone]
    constructor
    · rintro ⟨_, ⟨⟩, h⟩
      exact h
    · exact fun h => ⟨p, rfl, h⟩
  | cons arg rest ih =>
    cases hw : p.awaiting? with
    | none =>
      by_cases hform : Form.of arg = .dashes
      · exact reads_dashes hs hone hw hform
      · rw [reads_cons_iff hs hw hform, completes_part hw hform]
        refine exists_congr fun q => ?_
        rw [readPart_eq_ok_iff hone]
        refine and_congr_right ?_
        rintro ⟨ys, -, xs, waiting, -, hxs, rfl⟩
        exact ih hxs
    | some a =>
      obtain ⟨ys, rfl⟩ := Progress.exists_of_awaiting hw
      by_cases hvalue : a.takesAnything = true ∨ Form.of arg = .word
      · have hys : Once ys := hone
        rw [completes_supply hys hvalue, ← ih (p := (of ys (some a)).supply arg) hone, Reads,
          walk_supply hs hvalue, ← Reads]
      · exact iff_of_false (not_reads_waiting hs hvalue) (not_completes_waiting hvalue)

theorem walk_snd (hs : s ≠ .top) {verb : Option (Verb × List Bytes)} (h : s.walk program p args = .ok (q, verb)) :
    verb = none := by
  induction args generalizing p with
  | nil =>
    cases h
    rfl
  | cons arg rest ih =>
    rw [walk_cons (absurd · hs)] at h
    split at h
    · exact ih h
    split at h
    · split at h
      · cases h
        rfl
      · cases h
    · obtain ⟨p₁, -, h⟩ := bind_eq_ok.1 h
      exact ih h
    · obtain ⟨p₁, -, h⟩ := bind_eq_ok.1 h
      exact ih h
    · split at h
      · exact ih h
      · cases h

/-- **The arguments of a command are accepted if each can be read, none repeats what may be given once, and they do not
ask for less and for more to be told.** -/
theorem read_eq_ok_iff (hs : s ≠ .top) :
    s.read program args = .ok xs ↔ s.settings? none args = some xs ∧ Once xs ∧ clash? xs = none := by
  have hread : s.read program args = .ok xs ↔ s.Reads program {} args xs ∧ clash? xs = none := by
    constructor
    · intro h
      obtain ⟨⟨p, verb⟩, hw, hrest⟩ := bind_eq_ok.1 h
      obtain ⟨q, hq, hlast⟩ := bind_eq_ok.1 hrest
      obtain ⟨ys, rfl⟩ := Progress.exists_of_settle hq
      obtain rfl := walk_snd hs hw
      cases hc : clash? (of ys none).settings with
      | some m =>
        rw [hc] at hlast
        cases hlast
      | none =>
        rw [hc] at hlast
        cases hlast
        exact ⟨⟨p, hw, hq⟩, hc⟩
    · rintro ⟨⟨p, hw, hq⟩, hnone⟩
      refine bind_eq_ok.2 ⟨_, hw, bind_eq_ok.2 ⟨_, hq, ?_⟩⟩
      dsimp only [of]
      rw [hnone]
      rfl
  have hempty (ys : List Setting) (waiting : Option Argument) :
      (of [] none).Stands ys waiting ↔ ys = [] ∧ waiting = none := stands_of
  have hcompletes : s.Completes {} args xs ↔ s.settings? none args = some xs ∧ Once xs := by
    constructor
    · rintro ⟨ys, waiting, more, hp, hmore, rfl, hone⟩
      obtain ⟨rfl, rfl⟩ := (hempty _ _).1 hp
      exact ⟨hmore, hone⟩
    · exact fun h => ⟨[], none, xs, (hempty _ _).2 ⟨rfl, rfl⟩, h.1, rfl, h.2⟩
  rw [hread, reads_iff (p := {}) hs List.Pairwise.nil, hcompletes, and_assoc]

/-! ## Before the verb -/

/-- No argument that stands before the verb takes a value. -/
theorem waiting_of_part?_top (h : Scope.top.part? arg = some (xs, waiting)) : waiting = none := by
  have hvalue : ∀ a ∈ Scope.top.arguments, a.takesValue = false := by decide
  have hcluster (b : Bytes) {xs : List Setting} {waiting : Option Argument}
      (h : Scope.top.cluster? b = some (xs, waiting)) : waiting = none := by
    induction b generalizing xs with
    | nil =>
      cases h
      rfl
    | cons y b ih =>
      obtain ⟨a, ha, h⟩ := Option.bind_eq_some_iff.1 h
      rw [hvalue a (mem_of_short? ha).1, if_neg Bool.false_ne_true] at h
      obtain ⟨x, -, h⟩ := Option.bind_eq_some_iff.1 h
      obtain ⟨r, hr, heq⟩ := Option.map_eq_some_iff.1 h
      obtain ⟨-, rfl⟩ := Prod.mk.inj heq
      exact ih hr
  unfold part? at h
  split at h
  · obtain ⟨a, ha, h⟩ := Option.bind_eq_some_iff.1 h
    obtain ⟨name, -, ha⟩ := Option.bind_eq_some_iff.1 ha
    rw [hvalue a (mem_of_long? ha).1] at h
    split at h
    · cases ‹false = true›
    · cases ‹false = true›
    · cases h
    · obtain ⟨x, -, heq⟩ := Option.map_eq_some_iff.1 h
      exact (Prod.mk.inj heq).2.symm
  · exact hcluster _ h
  · cases h
  · cases h

theorem part?_verb (v : Verb) : s.part? (Utf8.encode v.name) = none :=
  part?_of_word (by cases v <;> decide)

/-- **Up to the verb the arguments add their settings.** -/
theorem top_walk_iff {v : Verb} {after : List Bytes} (hone : Once ys) :
    Scope.top.walk program (of ys none) args = .ok (q, some (v, after)) ↔
      ∃ before xs, args = before ++ Utf8.encode v.name :: after ∧ Scope.top.steps? none before = some (xs, none) ∧
        Once (ys ++ xs) ∧ q = of (ys ++ xs) none := by
  induction args generalizing ys with
  | nil => exact iff_of_false (by rintro ⟨⟩) (by rintro ⟨before, xs, h, -⟩; cases before <;> cases h)
  | cons arg rest ih =>
    have hw : (of ys none).awaiting? = none := rfl
    cases hv : Verb.ofBytes? arg with
    | some v' =>
      obtain rfl := eq_of_ofBytes? hv
      have hwalk : Scope.top.walk program (of ys none) (Utf8.encode v'.name :: rest) =
          .ok (of ys none, some (v', rest)) := by
        rw [walk.eq_def, hw]
        dsimp only
        rw [Option.any_none, if_neg Bool.false_ne_true, if_pos ⟨rfl, rfl⟩, hv]
      rw [hwalk]
      constructor
      · rintro ⟨⟩
        exact ⟨[], [], rfl, rfl, by rwa [List.append_nil], by rw [List.append_nil]⟩
      · rintro ⟨before, xs, hargs, hxs, -, rfl⟩
        cases before with
        | nil =>
          obtain ⟨hverb, rfl⟩ := List.cons.inj hargs
          obtain rfl : v' = v := Option.some.inj (by rw [← v'.ofBytes?_name, hverb, v.ofBytes?_name])
          cases hxs
          rw [List.append_nil]
        | cons b before =>
          obtain ⟨rfl, -⟩ := List.cons.inj hargs
          rw [steps?, step?, part?_verb] at hxs
          cases hxs
    | none =>
      have hother : ∀ v : Verb, arg ≠ Utf8.encode v.name := by
        rintro v rfl
        rw [Verb.ofBytes?_name] at hv
        cases hv
      by_cases hform : Form.of arg = .dashes
      · have hrefused : Scope.top.walk program (of ys none) (arg :: rest) ≠ .ok (q, some (v, after)) := by
          rw [walk_cons fun _ => hv, hw, hform]
          cases rest <;> rintro ⟨⟩
        refine iff_of_false hrefused ?_
        rintro ⟨before, xs, hargs, hxs, -⟩
        cases before with
        | nil => exact hother v (List.cons.inj hargs).1
        | cons b before =>
          obtain ⟨rfl, -⟩ := List.cons.inj hargs
          rw [steps?, step?, part?_of_dashes hform] at hxs
          cases hxs
      · rw [walk_part (fun _ => hv) hw hform, bind_eq_ok]
        simp only [readPart_of hone]
        constructor
        · rintro ⟨_, ⟨front, waiting, hfront, honefront, rfl⟩, hq⟩
          obtain rfl := waiting_of_part?_top hfront
          obtain ⟨before, xs, rfl, hxs, honexs, rfl⟩ := (ih honefront).1 hq
          rw [List.append_assoc] at honexs ⊢
          exact ⟨arg :: before, front ++ xs, rfl, steps?_cons.2 ⟨_, _, _, hfront, hxs, rfl⟩, honexs, rfl⟩
        · rintro ⟨before, xs, hargs, hxs, honexs, hq⟩
          cases before with
          | nil => exact absurd (List.cons.inj hargs).1 (hother v)
          | cons b before =>
            obtain ⟨rfl, rfl⟩ := List.cons.inj hargs
            obtain ⟨front, waiting, more, hfront, hmore, rfl⟩ := steps?_cons.1 hxs
            obtain rfl := waiting_of_part?_top hfront
            rw [← List.append_assoc] at honexs hq
            exact ⟨_, ⟨front, none, hfront, honexs.left, rfl⟩,
              (ih honexs.left).2 ⟨before, more, rfl, hmore, honexs, hq⟩⟩

theorem verb_unique {before' : List Bytes} {v v' : Verb} {after after' : List Bytes}
    (h : Scope.top.steps? none before = some (xs, none)) (h' : Scope.top.steps? none before' = some (ys, none))
    (heq : before ++ Utf8.encode v.name :: after = before' ++ Utf8.encode v'.name :: after') :
    before = before' ∧ v = v' ∧ after = after' := by
  have hsteps {arg : Bytes} {args : List Bytes} {xs : List Setting}
      (h : Scope.top.steps? none (arg :: args) = some (xs, none)) :
      (∀ v : Verb, arg ≠ Utf8.encode v.name) ∧ ∃ ys, Scope.top.steps? none args = some (ys, none) := by
    obtain ⟨front, waiting, ys, hfront, hys, -⟩ := steps?_cons.1 h
    obtain rfl := waiting_of_part?_top hfront
    refine ⟨?_, ys, hys⟩
    rintro v rfl
    rw [step?, part?_verb] at hfront
    cases hfront
  induction before generalizing before' xs ys with
  | nil =>
    cases before' with
    | nil =>
      obtain ⟨hname, rfl⟩ := List.cons.inj heq
      refine ⟨rfl, Option.some.inj ?_, rfl⟩
      rw [← v.ofBytes?_name, hname, v'.ofBytes?_name]
    | cons arg before' => exact absurd (List.cons.inj heq).1.symm ((hsteps h').1 v)
  | cons arg before ih =>
    cases before' with
    | nil => exact absurd (List.cons.inj heq).1 ((hsteps h).1 v')
    | cons arg' before' =>
      obtain ⟨rfl, htail⟩ := List.cons.inj heq
      obtain ⟨-, _, hxs⟩ := hsteps h
      obtain ⟨-, _, hys⟩ := hsteps h'
      obtain ⟨rfl, hv, hafter⟩ := ih hxs hys htail
      exact ⟨rfl, hv, hafter⟩

end Scope

namespace Invocation

variable {first : Bytes} {i : Invocation}

theorem readTask_build_eq_ok_iff {inner : List Setting} {task : Task} :
    readTask program .build args = .ok (inner, task) ↔ Scope.build.read program args = .ok inner ∧
      task = .build (Setting.configPath? inner) (Setting.overrides inner) := by
  rw [readTask]
  constructor
  · intro h
    obtain ⟨settings, hread, h⟩ := bind_eq_ok.1 h
    cases h
    exact ⟨hread, rfl⟩
  · rintro ⟨hread, rfl⟩
    exact bind_eq_ok.2 ⟨inner, hread, rfl⟩

theorem readTask_scan_eq_ok_iff {inner : List Setting} {task : Task} :
    readTask program .scan args = .ok (inner, task) ↔ Scope.scan.read program args = .ok inner ∧
      task = .scan (Setting.configPath? inner) (Setting.overrides inner) (inner.contains .json) := by
  rw [readTask]
  constructor
  · intro h
    obtain ⟨settings, hread, h⟩ := bind_eq_ok.1 h
    cases h
    exact ⟨hread, rfl⟩
  · rintro ⟨hread, rfl⟩
    exact bind_eq_ok.2 ⟨inner, hread, rfl⟩

/-- **A command line is accepted if the arguments in front of its verb and those behind it are.** -/
theorem ofArguments_eq_ok_iff : ofArguments (first :: args) = .ok i ↔
    ∃ before outer v after inner task, args = before ++ Utf8.encode v.name :: after ∧
      Scope.top.steps? none before = some (outer, none) ∧ Once outer ∧ Scope.clash? outer = none ∧
      readTask (calledName? [first]) v after = .ok (inner, task) ∧
      i = ⟨verbosityOf outer inner, inner.contains .quiet || outer.contains .quiet, task⟩ := by
  have hnil : Once [] := List.Pairwise.nil
  constructor
  · intro h
    obtain ⟨⟨p, command⟩, hw, h⟩ := bind_eq_ok.1 h
    cases command with
    | none =>
      dsimp only at h
      split at h <;> cases h
    | some command =>
      obtain ⟨v, after⟩ := command
      obtain ⟨⟨inner, task⟩, htask, h⟩ := bind_eq_ok.1 h
      obtain ⟨before, outer, hargs, houter, hone, rfl⟩ := (Scope.top_walk_iff hnil).1 hw
      cases hclash : Scope.clash? (Scope.Progress.of outer none).settings with
      | some m =>
        rw [List.nil_append, hclash] at h
        cases h
      | none =>
        rw [List.nil_append, hclash] at h
        cases h
        exact ⟨before, outer, v, after, inner, task, hargs, houter, hone, hclash, htask, rfl⟩
  · rintro ⟨before, outer, v, after, inner, task, rfl, houter, hone, hclash, htask, rfl⟩
    have hw : Scope.top.walk (calledName? [first]) {} (before ++ Utf8.encode v.name :: after) =
        .ok (.of outer none, some (v, after)) :=
      (Scope.top_walk_iff hnil).2 ⟨before, outer, rfl, houter, hone, rfl⟩
    refine bind_eq_ok.2 ⟨_, hw, bind_eq_ok.2 ⟨_, htask, ?_⟩⟩
    dsimp only [Scope.Progress.of]
    rw [hclash]
    rfl

theorem ofArguments_at_eq_ok_iff {outer : List Setting} {v : Verb} {after : List Bytes}
    (h : Scope.top.steps? none before = some (outer, none)) :
    ofArguments (first :: (before ++ Utf8.encode v.name :: after)) = .ok i ↔
      Once outer ∧ Scope.clash? outer = none ∧ ∃ inner task,
        readTask (calledName? [first]) v after = .ok (inner, task) ∧
        i = ⟨verbosityOf outer inner, inner.contains .quiet || outer.contains .quiet, task⟩ := by
  rw [ofArguments_eq_ok_iff]
  constructor
  · rintro ⟨before', outer', v', after', inner, task, heq, houter, hone, hclash, htask, rfl⟩
    obtain ⟨rfl, rfl, rfl⟩ := Scope.verb_unique h houter heq
    rw [h] at houter
    cases houter
    exact ⟨hone, hclash, inner, task, htask, rfl⟩
  · rintro ⟨hone, hclash, inner, task, htask, rfl⟩
    exact ⟨before, outer, v, after, inner, task, rfl, h, hone, hclash, htask, rfl⟩

end Invocation

end GrammarBatch.CommandLine
