import GrammarBatch.CommandLine.Invocation
import GrammarBatch.Proofs.Except
import GrammarBatch.Proofs.Text.Utf8

/-!
# Command lines for a scan and for a build

* **`Scope.build_walk`**, `Scope.build_read`: arguments that are read for a scan are read in the same way for a
  build;
* `Scope.Progress.Within`, **`Scope.mem_arguments_of_read`**: every setting belongs to an argument that may be
  given;
* **`Invocation.exists_build_of_scan`**: the verb of a scan can be replaced by that of a build.
-/

namespace GrammarBatch.CommandLine

variable {program : Option String} {a : Argument} {args : List Bytes} {settings : List Setting}

theorem eq_of_form_long {arg name : Bytes} (h : Form.of arg = .long name none) :
    arg = dash :: dash :: name := by
  unfold Form.of at h
  split at h
  · rename_i a b rest
    split at h
    · cases h
    rename_i ha
    split at h
    · cases h
    rename_i hb
    split at h
    · cases h
    dsimp only at h
    split at h
    · rename_i hafter
      have hall := List.takeWhile_append_dropWhile (p := (· != equals)) (l := rest)
      rw [hafter, List.append_nil] at hall
      cases h
      rw [hall, of_not_not ha, of_not_not hb]
    · cases h
  · cases h

/-! ## Arguments of both commands -/

namespace Scope

variable {p q : Progress}

theorem mem_of_long? {s : Scope} {name : String} (h : s.long? name = some a) :
    a ∈ s.arguments ∧ a.long = name :=
  ⟨List.mem_of_find?_eq_some h, by simpa using List.find?_some (p := fun a : Argument => a.long == name) h⟩

theorem mem_of_short? {s : Scope} {c : Char} (h : s.short? c = some a) :
    a ∈ s.arguments ∧ a.short? = some c :=
  ⟨List.mem_of_find?_eq_some h, by simpa using List.find?_some (p := fun a : Argument => a.short? == some c) h⟩

theorem build_long? {name : String} (h : Scope.scan.long? name = some a) (ha : a ≠ .json) :
    Scope.build.long? name = some a := by
  have hall : ∀ a ∈ Scope.scan.arguments, a ≠ .json → Scope.build.long? a.long = some a := by decide
  obtain ⟨hm, rfl⟩ := mem_of_long? h
  exact hall a hm ha

theorem build_short? {c : Char} (h : Scope.scan.short? c = some a) : Scope.build.short? c = some a := by
  have hall : ∀ a ∈ Scope.scan.arguments, a.short?.bind Scope.build.short? = a.short?.map fun _ => a := by
    decide
  obtain ⟨hm, hc⟩ := mem_of_short? h
  have ha := hall a hm
  rwa [hc] at ha

theorem build_flag (h : Scope.scan.flag program p a = .ok q) : Scope.build.flag program p a = .ok q := by
  unfold flag at h ⊢
  obtain ⟨p', hp, h⟩ := bind_eq_ok.1 h
  refine bind_eq_ok.2 ⟨p', hp, ?_⟩
  cases a <;> first | exact h | cases h

theorem build_readLong {name : Bytes} {value : Option Bytes}
    (h : Scope.scan.readLong program p name value = .ok q) (hj : value = none → name ≠ Utf8.encode "json") :
    Scope.build.readLong program p name value = .ok q := by
  unfold readLong at h ⊢
  cases hn : Utf8.decode? name with
  | none =>
    rw [hn] at h
    cases h
  | some text =>
    rw [hn, Option.bind_some] at h
    cases hs : Scope.scan.long? text with
    | none =>
      rw [hs] at h
      cases h
    | some a =>
      rw [hs] at h
      have ha : a ≠ .json := by
        rintro rfl
        cases value with
        | some v => cases h
        | none =>
          obtain rfl : "json" = text := (mem_of_long? hs).2
          exact hj rfl (Utf8.decode?_eq_some_iff.1 hn)
      rw [Option.bind_some, build_long? hs ha]
      dsimp only at h ⊢
      split at h
      · exact h
      · exact h
      · cases h
      · exact build_flag h

theorem build_readLetters {cs : List Char} {suffix : Bytes}
    (h : Scope.scan.readLetters program p cs suffix = .ok q) :
    Scope.build.readLetters program p cs suffix = .ok q := by
  induction cs generalizing p with
  | nil => exact h
  | cons c cs ih =>
    unfold readLetters at h ⊢
    cases hs : Scope.scan.short? c with
    | none =>
      rw [hs] at h
      cases h
    | some a =>
      rw [hs] at h
      rw [build_short? hs]
      dsimp only at h ⊢
      split at h
      · rename_i hv
        rw [if_pos hv]
        exact h
      · rename_i hv
        rw [if_neg hv]
        obtain ⟨p', hf, h⟩ := bind_eq_ok.1 h
        exact bind_eq_ok.2 ⟨p', build_flag hf, ih h⟩

/-- **What is read among the arguments of a scan is read in the same way among those of a build.** -/
theorem build_walk {r : Progress × Option (Verb × List Bytes)} (h : Scope.scan.walk program p args = .ok r)
    (hj : Utf8.encode "--json" ∉ args) : Scope.build.walk program p args = .ok r := by
  induction args generalizing p with
  | nil => exact h
  | cons arg rest ih =>
    have hrest : Utf8.encode "--json" ∉ rest := fun hm => hj (List.mem_cons_of_mem _ hm)
    have hverb (s : Scope) (hs : s ≠ .top) :
        (if p.awaiting?.isNone ∧ s = .top then Verb.ofBytes? arg else none) = none :=
      if_neg fun h => hs h.2
    unfold walk at h ⊢
    split at h
    · rename_i hany
      rw [if_pos hany]
      exact ih h hrest
    · rename_i hany
      rw [if_neg hany]
      dsimp only at h ⊢
      rw [hverb _ (by decide)] at h ⊢
      dsimp only at h ⊢
      cases hform : Form.of arg with
      | dashes =>
        rw [hform] at h
        cases rest with
        | nil => exact h
        | cons next rest => cases h
      | long name value =>
        rw [hform] at h
        dsimp only at h ⊢
        have hname : value = none → name ≠ Utf8.encode "json" := by
          rintro rfl rfl
          exact hj (by rw [eq_of_form_long hform]; exact List.mem_cons_self)
        obtain ⟨p', hl, h⟩ := bind_eq_ok.1 h
        exact bind_eq_ok.2 ⟨p', build_readLong hl hname, ih h hrest⟩
      | letters b =>
        rw [hform] at h
        dsimp only at h ⊢
        obtain ⟨p', hl, h⟩ := bind_eq_ok.1 h
        exact bind_eq_ok.2 ⟨p', build_readLetters hl, ih h hrest⟩
      | word =>
        rw [hform] at h
        dsimp only at h ⊢
        split at h
        · rename_i hw
          rw [if_pos hw]
          exact ih h hrest
        · cases h

/-! ## Settings of a scope -/

/-- Everything read so far belongs to arguments of the scope. -/
def Progress.Within (p : Progress) (s : Scope) : Prop :=
  (∀ x ∈ p.settings, x.argument ∈ s.arguments) ∧ ∀ x ∈ p.pending, x.1 ∈ s.arguments

theorem argument_of_ofValue {b : Bytes} {x : Setting} (h : Setting.ofValue a b = .ok x) : x.argument = a := by
  have hmap {β : Type} {e : Except ValueFault β} {f : β → Setting} (hf : ∀ v, (f v).argument = a)
      (h : e.map f = .ok x) : x.argument = a := by
    obtain ⟨v, -, rfl⟩ := map_eq_ok.1 h
    exact hf v
  unfold Setting.ofValue at h
  split at h
  all_goals first | exact hmap (fun _ => rfl) h | cases h

theorem argument_of_ofFlag? {x : Setting} (h : Setting.ofFlag? a = some x) : x.argument = a := by
  cases a <;> first | (cases h; rfl) | cases h

variable {s : Scope}

theorem within_give {setting : Except ValueFault Setting} (hp : p.Within s) (ha : a ∈ s.arguments)
    (hs : ∀ x, setting = .ok x → x.argument = a) (h : p.give a setting = .ok q) : q.Within s := by
  unfold Progress.give at h
  split at h
  · cases h
  split at h
  · rename_i x
    cases h
    refine ⟨fun y hy => ?_, hp.2⟩
    rcases List.mem_append.1 hy with hy | hy
    · exact hp.1 y hy
    · rw [List.mem_singleton.1 hy, hs x rfl]
      exact ha
  · cases h

theorem within_settle (hp : p.Within s) (h : p.settle = .ok q) : q.Within s := by
  unfold Progress.settle at h
  split at h
  · cases h
    exact hp
  · cases h
  · rename_i a value hpending
    have ha : a ∈ s.arguments := hp.2 (a, some value) hpending
    have hp' : Progress.Within { p with pending := none } s := ⟨hp.1, nofun⟩
    exact within_give hp' ha (fun x hx => argument_of_ofValue hx) h

theorem within_giveValue {value : Bytes} (hp : p.Within s) (ha : a ∈ s.arguments)
    (h : p.giveValue a value = .ok q) : q.Within s := by
  obtain ⟨p', hs, h⟩ := bind_eq_ok.1 h
  exact within_give (within_settle hp hs) ha (fun x hx => argument_of_ofValue hx) h

theorem within_await (hp : p.Within s) (ha : a ∈ s.arguments) (h : p.await a = .ok q) : q.Within s := by
  obtain ⟨p', hs, h⟩ := bind_eq_ok.1 h
  cases h
  refine ⟨(within_settle hp hs).1, fun x hx => ?_⟩
  cases hx
  exact ha

theorem within_supply (hp : p.Within s) (value : Bytes) : (p.supply value).Within s := by
  refine ⟨hp.1, fun x hx => ?_⟩
  obtain ⟨y, hy, rfl⟩ := Option.map_eq_some_iff.1 hx
  exact hp.2 y hy

theorem within_flag (hp : p.Within s) (ha : a ∈ s.arguments) (h : s.flag program p a = .ok q) :
    q.Within s := by
  obtain ⟨p', hs, h⟩ := bind_eq_ok.1 h
  have hp' := within_settle hp hs
  split at h
  · cases h
  · cases h
  · split at h
    · rename_i x hx
      refine within_give hp' ha (fun y hy => ?_) h
      cases hy
      exact argument_of_ofFlag? hx
    · cases h

theorem within_readLong {name : Bytes} {value : Option Bytes} (hp : p.Within s)
    (h : s.readLong program p name value = .ok q) : q.Within s := by
  unfold readLong at h
  split at h
  · cases h
  · rename_i a hs
    obtain ⟨text, -, hs⟩ := Option.bind_eq_some_iff.1 hs
    have ha := (mem_of_long? hs).1
    split at h
    · exact within_giveValue hp ha h
    · exact within_await hp ha h
    · cases h
    · exact within_flag hp ha h

theorem within_readLetters {cs : List Char} {suffix : Bytes} (hp : p.Within s)
    (h : s.readLetters program p cs suffix = .ok q) : q.Within s := by
  induction cs generalizing p with
  | nil =>
    unfold readLetters at h
    split at h
    · cases h
      exact hp
    · cases h
  | cons c cs ih =>
    unfold readLetters at h
    split at h
    · cases h
    · rename_i a hs
      have ha := (mem_of_short? hs).1
      split at h
      · split at h
        · exact within_await hp ha h
        · exact within_giveValue hp ha h
      · obtain ⟨p', hf, h⟩ := bind_eq_ok.1 h
        exact ih (within_flag hp ha hf) h

theorem within_walk {verb : Option (Verb × List Bytes)} (hp : p.Within s)
    (h : s.walk program p args = .ok (q, verb)) : q.Within s := by
  induction args generalizing p with
  | nil =>
    cases h
    exact hp
  | cons arg rest ih =>
    unfold walk at h
    split at h
    · exact ih (within_supply hp arg) h
    · dsimp only at h
      split at h
      · cases h
        exact hp
      split at h
      · split at h
        · cases h
          exact hp
        · cases h
      · rename_i name value hform
        obtain ⟨p', hl, h⟩ := bind_eq_ok.1 h
        exact ih (within_readLong hp hl) h
      · rename_i b hform
        obtain ⟨p', hl, h⟩ := bind_eq_ok.1 h
        exact ih (within_readLetters hp hl) h
      · split at h
        · exact ih (within_supply hp arg) h
        · cases h

/-- **Every setting that is read belongs to an argument of the scope.** -/
theorem mem_arguments_of_read (h : s.read program args = .ok settings) {x : Setting} (hx : x ∈ settings) :
    x.argument ∈ s.arguments := by
  unfold read at h
  obtain ⟨⟨p, verb⟩, hw, h⟩ := bind_eq_ok.1 h
  obtain ⟨p', hs, h⟩ := bind_eq_ok.1 h
  have hp : p.Within s := within_walk ⟨by simp, by simp⟩ hw
  split at h
  · cases h
  · cases h
    exact (within_settle hp hs).1 x hx

/-- **Arguments of a scan, without the one for JSON, give the same settings for a build.** -/
theorem build_read (h : Scope.scan.read program args = .ok settings) (hj : Utf8.encode "--json" ∉ args) :
    Scope.build.read program args = .ok settings := by
  obtain ⟨r, hw, h⟩ := bind_eq_ok.1 h
  exact bind_eq_ok.2 ⟨r, build_walk hw hj, h⟩

end Scope

namespace Invocation

variable {first : Bytes} {i : Invocation}

/-- The command line with the verb. -/
def commandLine (first : Bytes) (v : Verb) (args : List Bytes) : List Bytes :=
  first :: Utf8.encode v.name :: args

theorem walk_verb (program : Option String) (v : Verb) (args : List Bytes) :
    Scope.top.walk program {} (Utf8.encode v.name :: args) = .ok ({}, some (v, args)) := by
  have hv : Verb.ofBytes? (Utf8.encode v.name) = some v := by cases v <;> decide
  unfold Scope.walk
  rw [if_neg nofun, if_pos ⟨rfl, rfl⟩, hv]

/-- A command line that begins with a verb asks for what the arguments after the verb say. -/
theorem ofArguments_verb (first : Bytes) (v : Verb) (args : List Bytes) :
    ofArguments (commandLine first v args) = (readTask (calledName? [first]) v args).map fun r =>
      { verbosity := verbosityOf [] r.1, quiet := r.1.contains .quiet, task := r.2 } := by
  have hname : calledName? (commandLine first v args) = calledName? [first] := rfl
  rw [ofArguments, hname, commandLine, List.tail_cons]
  dsimp only
  rw [walk_verb]
  change readTask (calledName? [first]) v args >>= _ = _
  cases readTask (calledName? [first]) v args with
  | error x => rfl
  | ok r =>
    change Except.ok _ = Except.ok _
    simp

/-- **A command line for a scan without JSON is one for a build when the verb is replaced.** -/
theorem exists_build_of_scan (h : ofArguments (commandLine first .scan args) = .ok i)
    (hj : Utf8.encode "--json" ∉ args) : ∃ config o, i.task = .scan config o false ∧
      ofArguments (commandLine first .build args) = .ok { i with task := .build config o } := by
  have hscan := ofArguments_verb first .scan args
  have hbuild := ofArguments_verb first .build args
  rw [h] at hscan
  cases hr : Scope.scan.read (calledName? [first]) args with
  | error x =>
    rw [readTask, hr] at hscan
    cases hscan
  | ok settings =>
    have hno : settings.contains .json = false := by
      have hb := Scope.build_read hr hj
      rw [Bool.eq_false_iff]
      intro hc
      have hm := Scope.mem_arguments_of_read hb (List.contains_iff_mem.1 hc)
      exact absurd hm (by decide)
    rw [readTask, hr] at hscan
    rw [readTask, Scope.build_read hr hj] at hbuild
    obtain rfl : i = _ := Except.ok.inj hscan
    refine ⟨Setting.configPath? settings, Setting.overrides settings, ?_, hbuild⟩
    rw [← hno]

end Invocation

end GrammarBatch.CommandLine
