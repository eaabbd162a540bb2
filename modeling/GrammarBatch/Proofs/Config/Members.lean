import GrammarBatch.Config.Reader
import GrammarBatch.Proofs.Glob.PatternMap
import GrammarBatch.Proofs.Json.Records

/-!
# Configurations from the members that come

A configuration is written as an object, its options and its command as objects in it. Any of their members may be
missing, and they may come in any order.

* `ToolOptions.Sets`, `ToolCommand.Sets`, `BuildConfig.Sets`: the members of each object, the values that they may
  have, and the fields that they set;
* `BuildConfig.ofTree?`: the configuration that a tree gives, which is the one that any text for it gives;
* `BuildConfig.Rearranged`: members in another order, patterns in another order or repeated;
* `BuildConfig.Astray`: a member with a wrong name or a name that came before, in any of the objects;
* **`BuildConfig.ofText_members`**: the configuration is the default with the fields replaced that come, in any
  arrangement, and there is none where a member is astray.
-/

namespace GrammarBatch

open Json Json.Schema

theorem MessageFormat.choice?_name (f : MessageFormat) : Tree.choice? named (.text f.name) = some f := by
  cases f <;> rfl

/-! ## Options -/

namespace ToolOptions

/-- The names of the options. -/
def keys : List String :=
  ["report", "print-grammar", "debug", "profile", "nfa", "dfa", "trace", "message-format", "verbose",
    "max-switch-case-labels", "min-switch-alts"]

/-- A member with its value sets an option. -/
inductive Sets : String → Tree → (ToolOptions → ToolOptions) → Prop where
  | report (b : Bool) : Sets "report" (.flag b) fun o => { o with report := b }
  | printGrammar (b : Bool) : Sets "print-grammar" (.flag b) fun o => { o with printGrammar := b }
  | debug (b : Bool) : Sets "debug" (.flag b) fun o => { o with debug := b }
  | profile (b : Bool) : Sets "profile" (.flag b) fun o => { o with profile := b }
  | nfa (b : Bool) : Sets "nfa" (.flag b) fun o => { o with nfa := b }
  | dfa (b : Bool) : Sets "dfa" (.flag b) fun o => { o with dfa := b }
  | trace (b : Bool) : Sets "trace" (.flag b) fun o => { o with trace := b }
  | messageFormat (f : MessageFormat) : Sets "message-format" (.text f.name) fun o => { o with messageFormat := f }
  /-- The name of a format may also be that of a member without a value. -/
  | messageFormatMember (f : MessageFormat) :
    Sets "message-format" (.object [(f.name, .null)]) fun o => { o with messageFormat := f }
  | verbose (b : Bool) : Sets "verbose" (.flag b) fun o => { o with verbose := b }
  | maxSwitchCaseLabels (n : UInt32) : Sets "max-switch-case-labels" (.number (Nat.toDigits 10 n.toNat))
    fun o => { o with maxSwitchCaseLabels := n }
  | minSwitchAlts (n : UInt32) : Sets "min-switch-alts" (.number (Nat.toDigits 10 n.toNat))
    fun o => { o with minSwitchAlts := n }

/-- The fields of the table, with what their readers make of trees. -/
def fields : List (Decoded ToolOptions) :=
  [.of "report" decodes_flag fun b o => { o with report := b },
    .of "print-grammar" decodes_flag fun b o => { o with printGrammar := b },
    .of "debug" decodes_flag fun b o => { o with debug := b },
    .of "profile" decodes_flag fun b o => { o with profile := b },
    .of "nfa" decodes_flag fun b o => { o with nfa := b },
    .of "dfa" decodes_flag fun b o => { o with dfa := b },
    .of "trace" decodes_flag fun b o => { o with trace := b },
    .of "message-format" (decodes_choice MessageFormat.named) fun f o => { o with messageFormat := f },
    .of "verbose" decodes_flag fun b o => { o with verbose := b },
    .of "max-switch-case-labels" decodes_word32 fun n o => { o with maxSwitchCaseLabels := n },
    .of "min-switch-alts" decodes_word32 fun n o => { o with minSwitchAlts := n }]

/-- The options that a tree gives. -/
def ofTree? : Tree → Option ToolOptions := Tree.record? fields {}

theorem decodes_reader : Decodes reader ofTree? := decodes_record fields {}

theorem nodup_keys : (fields.map (·.key)).Nodup := by decide

variable {key key' : String} {t t' : Tree} {put put' : ToolOptions → ToolOptions} {o : ToolOptions}
  {ms : List (String × Tree)}

theorem Sets.puts (h : Sets key t put) : Puts fields key t put := by
  rw [puts_iff nodup_keys]
  cases h with
  | messageFormat f => exact ⟨_, rfl, congrArg (Option.map _) (MessageFormat.choice?_name f)⟩
  | messageFormatMember f => exact ⟨_, rfl, congrArg (Option.map _) (MessageFormat.choice?_name f)⟩
  | maxSwitchCaseLabels n => exact ⟨_, rfl, congrArg (Option.map _) (word32?_toDigits n)⟩
  | minSwitchAlts n => exact ⟨_, rfl, congrArg (Option.map _) (word32?_toDigits n)⟩
  | _ => exact ⟨_, rfl, rfl⟩

theorem Sets.comm (hne : key ≠ key') (h : Sets key t put) (h' : Sets key' t' put') (o : ToolOptions) :
    put (put' o) = put' (put o) := by
  cases h <;> cases h' <;> first | rfl | exact absurd rfl hne

theorem ofTree?_of_replaces (h : Replaces Sets {} ms o) : ofTree? (.object ms) = some o :=
  (fill_eq_some_iff nodup_keys).2 (h.mono fun _ _ _ => Sets.puts)

theorem ofTree?_eq_none (h : Misnamed keys ms) : ofTree? (.object ms) = none :=
  fill_eq_none_of_misnamed nodup_keys h

end ToolOptions

/-! ## The command -/

namespace ToolCommand

/-- The names of the settings of a command. -/
def keys : List String := ["program", "args"]

/-- A member with its value sets a part of the command. -/
inductive Sets : String → Tree → (ToolCommand → ToolCommand) → Prop where
  | program (s : String) : Sets "program" (.text s) fun c => { c with program := s }
  | args (l : List String) : Sets "args" (.list (l.map .text)) fun c => { c with args := l }

def fields : List (Decoded ToolCommand) :=
  [.of "program" decodes_text fun s c => { c with program := s },
    .of "args" (decodes_listOf decodes_text) fun l c => { c with args := l }]

/-- The command that a tree gives. -/
def ofTree? : Tree → Option ToolCommand := Tree.record? fields {}

theorem decodes_reader : Decodes reader ofTree? := decodes_record fields {}

theorem nodup_keys : (fields.map (·.key)).Nodup := by decide

variable {key key' : String} {t t' : Tree} {put put' : ToolCommand → ToolCommand} {c : ToolCommand}
  {ms : List (String × Tree)}

theorem Sets.puts (h : Sets key t put) : Puts fields key t put := by
  rw [puts_iff nodup_keys]
  cases h with
  | program s => exact ⟨_, rfl, rfl⟩
  | args l => exact ⟨_, rfl, congrArg (Option.map _) (listOf?_text l)⟩

theorem Sets.comm (hne : key ≠ key') (h : Sets key t put) (h' : Sets key' t' put') (c : ToolCommand) :
    put (put' c) = put' (put c) := by
  cases h <;> cases h' <;> first | rfl | exact absurd rfl hne

theorem ofTree?_of_replaces (h : Replaces Sets {} ms c) : ofTree? (.object ms) = some c :=
  (fill_eq_some_iff nodup_keys).2 (h.mono fun _ _ _ => Sets.puts)

theorem ofTree?_eq_none (h : Misnamed keys ms) : ofTree? (.object ms) = none :=
  fill_eq_none_of_misnamed nodup_keys h

end ToolCommand

/-! ## Configurations -/

namespace BuildConfig

/-- The names of the settings of a configuration. -/
def keys : List String :=
  ["source-dir", "output-dir", "lib-dir", "includes", "excludes", "default-excludes", "options", "tool"]

/-- A member with its value sets a field of the configuration. -/
inductive Sets : String → Tree → (BuildConfig → BuildConfig) → Prop where
  | sourceDir (s : String) : Sets "source-dir" (.text s) fun c => { c with sourceDir := .ofString s }
  | outputDir (s : String) : Sets "output-dir" (.text s) fun c => { c with outputDir := .ofString s }
  | libDir (s : String) : Sets "lib-dir" (.text s) fun c => { c with libDir := some (.ofString s) }
  | noLibDir : Sets "lib-dir" .null fun c => { c with libDir := none }
  /-- Patterns may come in any order, and more than once. -/
  | includes {texts : List String} {set : PatternSet} (h : ∀ u, u ∈ set.texts ↔ u ∈ texts) :
    Sets "includes" (.list (texts.map .text)) fun c => { c with includes := set }
  | excludes {texts : List String} {set : PatternSet} (h : ∀ u, u ∈ set.texts ↔ u ∈ texts) :
    Sets "excludes" (.list (texts.map .text)) fun c => { c with excludes := set }
  | defaultExcludes (b : Bool) : Sets "default-excludes" (.flag b) fun c => { c with defaultExcludes := b }
  | options {ms : List (String × Tree)} {o : ToolOptions} (h : Replaces ToolOptions.Sets {} ms o) :
    Sets "options" (.object ms) fun c => { c with options := o }
  | tool {ms : List (String × Tree)} {t : ToolCommand} (h : Replaces ToolCommand.Sets {} ms t) :
    Sets "tool" (.object ms) fun c => { c with tool := t }

theorem decodes_path : Decodes Path.reader fun t => t.text?.bind fun s => some (.ofString s) :=
  decodes_textOf

theorem decodes_patterns : Decodes PatternSet.reader fun t =>
    (Tree.listOf? Tree.text? t).map PatternSet.ofList := (decodes_listOf decodes_text).map _

def fields : List (Decoded BuildConfig) :=
  [.of "source-dir" decodes_path fun p c => { c with sourceDir := p },
    .of "output-dir" decodes_path fun p c => { c with outputDir := p },
    .of "lib-dir" (decodes_optional decodes_path) fun p c => { c with libDir := p },
    .of "includes" decodes_patterns fun s c => { c with includes := s },
    .of "excludes" decodes_patterns fun s c => { c with excludes := s },
    .of "default-excludes" decodes_flag fun b c => { c with defaultExcludes := b },
    .of "options" ToolOptions.decodes_reader fun o c => { c with options := o },
    .of "tool" ToolCommand.decodes_reader fun t c => { c with tool := t }]

/-- The configuration that a tree gives. -/
def ofTree? : Tree → Option BuildConfig := Tree.record? fields {}

theorem decodes_reader : Decodes reader ofTree? := decodes_record fields {}

theorem nodup_keys : (fields.map (·.key)).Nodup := by decide

variable {key key' text : String} {t t' : Tree} {put put' : BuildConfig → BuildConfig} {c : BuildConfig}
  {ms ms' : List (String × Tree)} {set : PatternSet} {texts texts' : List String}

theorem ofText_of_ofTree? (h : Says text t) (hc : ofTree? t = some c) : ofText text = .ok c := by
  have hrun := decodes_reader.run h
  rw [hc] at hrun
  rw [ofText]
  cases hread : reader.run text.toList with
  | ok c' =>
    rw [hread] at hrun
    cases hrun
    rfl
  | error fault =>
    rw [hread] at hrun
    cases hrun

theorem ofText_of_ofTree?_eq_none (h : Says text t) (hnone : ofTree? t = none) :
    ∃ fault, ofText text = .error (.malformed text fault) := by
  have hrun := decodes_reader.run h
  rw [hnone] at hrun
  rw [ofText]
  cases hread : reader.run text.toList with
  | ok c =>
    rw [hread] at hrun
    cases hrun
  | error fault => exact ⟨fault, rfl⟩

theorem listOf?_patterns (h : ∀ u, u ∈ set.texts ↔ u ∈ texts) :
    (Tree.listOf? Tree.text? (.list (texts.map .text))).map PatternSet.ofList = some set := by
  have hset : PatternSet.ofList texts = set :=
    PatternSet.ext_texts fun u => by rw [PatternSet.mem_texts_ofList, h]
  rw [listOf?_text, Option.map_some, hset]

theorem Sets.puts (h : Sets key t put) : Puts fields key t put := by
  rw [puts_iff nodup_keys]
  cases h with
  | includes h => exact ⟨_, rfl, congrArg (Option.map _) (listOf?_patterns h)⟩
  | excludes h => exact ⟨_, rfl, congrArg (Option.map _) (listOf?_patterns h)⟩
  | options h => exact ⟨_, rfl, congrArg (Option.map _) (ToolOptions.ofTree?_of_replaces h)⟩
  | tool h => exact ⟨_, rfl, congrArg (Option.map _) (ToolCommand.ofTree?_of_replaces h)⟩
  | _ => exact ⟨_, rfl, rfl⟩

theorem Sets.comm (hne : key ≠ key') (h : Sets key t put) (h' : Sets key' t' put') (c : BuildConfig) :
    put (put' c) = put' (put c) := by
  cases h <;> cases h' <;> first | rfl | exact absurd rfl hne

theorem ofTree?_of_replaces (h : Replaces Sets {} ms c) : ofTree? (.object ms) = some c :=
  (fill_eq_some_iff nodup_keys).2 (h.mono fun _ _ _ => Sets.puts)

/-- Some member, here or in one of the objects inside, has a wrong name or one that came before. -/
inductive Astray (ms : List (String × Tree)) : Prop where
  | here (h : Misnamed keys ms)
  | options {os : List (String × Tree)} (hm : ("options", .object os) ∈ ms) (h : Misnamed ToolOptions.keys os)
  | tool {ts : List (String × Tree)} (hm : ("tool", .object ts) ∈ ms) (h : Misnamed ToolCommand.keys ts)

theorem ofTree?_of_astray (h : Astray ms) : ofTree? (.object ms) = none := by
  cases h with
  | here h => exact fill_eq_none_of_misnamed nodup_keys h
  | options hm h =>
    exact fill_eq_none_of_value nodup_keys hm rfl (congrArg (Option.map _) (ToolOptions.ofTree?_eq_none h))
  | tool hm h =>
    exact fill_eq_none_of_value nodup_keys hm rfl (congrArg (Option.map _) (ToolCommand.ofTree?_eq_none h))

/-- The same members in another arrangement. -/
inductive Rearranged : List (String × Tree) → List (String × Tree) → Prop where
  | members {ms ms' : List (String × Tree)} (h : ms.Perm ms') : Rearranged ms ms'
  /-- The members of an object inside. -/
  | inside {before after inner inner' : List (String × Tree)} {key : String} (h : inner.Perm inner') :
    Rearranged (before ++ (key, .object inner) :: after) (before ++ (key, .object inner') :: after)
  /-- Patterns in another order, or repeated. -/
  | patterns {before after : List (String × Tree)} {key : String} {texts texts' : List String}
    (hk : key = "includes" ∨ key = "excludes") (h : ∀ u, u ∈ texts ↔ u ∈ texts') :
    Rearranged (before ++ (key, .list (texts.map .text)) :: after)
      (before ++ (key, .list (texts'.map .text)) :: after)
  | trans {ms ms' ms'' : List (String × Tree)} (h : Rearranged ms ms') (h' : Rearranged ms' ms'') :
    Rearranged ms ms''

theorem Sets.inside {inner inner' : List (String × Tree)} (h : Sets key (.object inner) put)
    (hperm : inner.Perm inner') : Sets key (.object inner') put := by
  cases h with
  | options h => exact .options (h.perm hperm fun _ _ _ _ _ _ => ToolOptions.Sets.comm)
  | tool h => exact .tool (h.perm hperm fun _ _ _ _ _ _ => ToolCommand.Sets.comm)

theorem Sets.patterns (h : Sets key (.list (texts.map .text)) put) (hsame : ∀ u, u ∈ texts ↔ u ∈ texts') :
    Sets key (.list (texts'.map .text)) put := by
  have hinj : Function.Injective Tree.text := fun _ _ heq => Tree.text.inj heq
  -- the members are told apart by their values, and only these two have a list
  generalize hl : Tree.list (texts.map .text) = t at h
  cases h with
  | includes h =>
    obtain rfl := List.map_injective_iff.2 hinj (Tree.list.inj hl)
    exact .includes fun u => (h u).trans (hsame u)
  | excludes h =>
    obtain rfl := List.map_injective_iff.2 hinj (Tree.list.inj hl)
    exact .excludes fun u => (h u).trans (hsame u)
  | _ => cases hl

theorem replaces_of_rearranged (h : Rearranged ms ms') (hms : Replaces Sets {} ms c) :
    Replaces Sets {} ms' c := by
  induction h with
  | members hperm => exact hms.perm hperm fun _ _ _ _ _ _ => Sets.comm
  | inside hperm => exact hms.exchange fun _ h => h.inside hperm
  | patterns _ hsame => exact hms.exchange fun _ h => h.patterns hsame
  | trans _ _ ih ih' => exact ih' (ih hms)

/-- **From any text for an object of some of its members, the default is read with those fields replaced, and from
any other arrangement of them the same. Where a member is astray, there is an error.** -/
theorem ofText_members (h : Says text (.object ms)) :
    ((ms.map (·.1)).Nodup → (∀ m ∈ ms, ∃ put, Sets m.1 m.2 put) →
      ∃ c, Replaces Sets {} ms c ∧ ofText text = .ok c) ∧
    (∀ c ms' text', Replaces Sets {} ms c → Rearranged ms ms' → Says text' (.object ms') → ofText text' = .ok c) ∧
    (Astray ms → ∃ fault, ofText text = .error (.malformed text fault)) := by
  refine ⟨?_, ?_, ?_⟩
  · intro hdistinct hsets
    obtain ⟨c, hc⟩ := exists_replaces hdistinct hsets {}
    exact ⟨c, hc, ofText_of_ofTree? h (ofTree?_of_replaces hc)⟩
  · intro c ms' text' hc hms' h'
    exact ofText_of_ofTree? h' (ofTree?_of_replaces (replaces_of_rearranged hms' hc))
  · intro hastray
    exact ofText_of_ofTree?_eq_none h (ofTree?_of_astray hastray)

/-- A text with one option and two patterns. -/
def sparse : String := "\x7b \"options\":\x7b\"verbose\" : false\x7d,\n\"includes\":[\"b\",\"\\u0061\",\"b\"]\x7d"

def sparseMembers : List (String × Tree) :=
  [("options", .object [("verbose", .flag false)]), ("includes", .list (["b", "a", "b"].map .text))]

/-- The same in another arrangement. -/
def resorted : String := "\x7b\"includes\":[\"a\",\"b\"],\"options\":\x7b\"verbose\":false\x7d\x7d"

def resortedMembers : List (String × Tree) :=
  [("includes", .list (["a", "b"].map .text)), ("options", .object [("verbose", .flag false)])]

/-- A command with a member that it does not have. -/
def misspelled : String := "\x7b\"tool\":\x7b\"arg\":[]\x7d\x7d"

theorem spelled_sparse : Says sparse (.object sparseMembers) := by
  have hspace : Blank [' '] := by simp [Blank, Reader.isBlank]
  have hbreak : Blank ['\n'] := by simp [Blank, Reader.isBlank]
  have hnumbered : Text.Spells ['\\', 'u', '0', '0', '6', '1'] "a".toList :=
    @Text.Spells.numbered '0' '0' '6' '1' 0x61 [] [] rfl rfl rfl .nil
  have hoptions : Row (Pair Spells) true _ [("verbose", .flag false)] :=
    .first blank_nil (.mk (Text.spells_flatMap _) hspace hspace .no) (.nil blank_nil)
  have hpatterns : Row Spells true _ (["b", "a", "b"].map .text) :=
    .first blank_nil (.text (Text.spells_flatMap _)) (.next blank_nil blank_nil (.text hnumbered)
      (.next blank_nil blank_nil (.text (Text.spells_flatMap _)) (.nil blank_nil)))
  refine ⟨[], _, [], ?_, blank_nil, .object (.first hspace
    (.mk (Text.spells_flatMap _) blank_nil blank_nil (.object hoptions)) (.next blank_nil hbreak
    (.mk (Text.spells_flatMap _) blank_nil blank_nil (.list hpatterns)) (.nil blank_nil))), blank_nil⟩
  decide +kernel

theorem spelled_resorted : Says resorted (.object resortedMembers) := by
  have hoptions : Row (Pair Spells) true _ [("verbose", .flag false)] :=
    .first blank_nil (.mk (Text.spells_flatMap _) blank_nil blank_nil .no) (.nil blank_nil)
  have hpatterns : Row Spells true _ (["a", "b"].map .text) :=
    .first blank_nil (.text (Text.spells_flatMap _))
      (.next blank_nil blank_nil (.text (Text.spells_flatMap _)) (.nil blank_nil))
  refine ⟨[], _, [], ?_, blank_nil, .object (.first blank_nil
    (.mk (Text.spells_flatMap _) blank_nil blank_nil (.list hpatterns)) (.next blank_nil blank_nil
    (.mk (Text.spells_flatMap _) blank_nil blank_nil (.object hoptions)) (.nil blank_nil))), blank_nil⟩
  decide +kernel

theorem spelled_misspelled : Says misspelled (.object [("tool", .object [("arg", .list [])])]) := by
  have harg : Row (Pair Spells) true _ [("arg", .list [])] :=
    .first blank_nil (.mk (Text.spells_flatMap _) blank_nil blank_nil (.list (.nil blank_nil))) (.nil blank_nil)
  refine ⟨[], _, [], ?_, blank_nil, .object (.first blank_nil
    (.mk (Text.spells_flatMap _) blank_nil blank_nil (.object harg)) (.nil blank_nil)), blank_nil⟩
  decide +kernel

/-- One option and two patterns replace what the default has there, whatever order they come in. A member that the
command does not have is refused. -/
theorem ofText_sparse :
    ofText sparse = .ok { includes := .ofList ["a", "b"], options := { verbose := false } } ∧
    ofText resorted = .ok { includes := .ofList ["a", "b"], options := { verbose := false } } ∧
    ∃ fault, ofText misspelled = .error (.malformed misspelled fault) := by
  have hsame (u : String) : u ∈ ["b", "a", "b"] ↔ u ∈ ["a", "b"] := by
    simp only [List.mem_cons, List.not_mem_nil, or_false]
    tauto
  have hreplaces : Replaces Sets {} sparseMembers
      { includes := .ofList ["a", "b"], options := { verbose := false } } :=
    .cons (by decide) (.options (.cons (by decide) (.verbose false) .nil))
      (.cons (by decide) (.includes fun u => PatternSet.mem_texts_ofList.trans (hsame u).symm) .nil)
  have hrearranged : Rearranged sparseMembers resortedMembers :=
    .trans (.members (.swap _ _ _)) (@Rearranged.patterns [] _ "includes" _ _ (Or.inl rfl) hsame)
  obtain ⟨-, hagain, -⟩ := ofText_members spelled_sparse
  obtain ⟨-, -, hastray⟩ := ofText_members spelled_misspelled
  refine ⟨hagain _ _ _ hreplaces (.members (.refl _)) spelled_sparse, ?_, ?_⟩
  · exact hagain _ _ _ hreplaces hrearranged spelled_resorted
  · exact hastray (.tool List.mem_cons_self (Or.inl ⟨"arg", by decide, by decide⟩))

end BuildConfig

end GrammarBatch
