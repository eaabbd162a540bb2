import GrammarBatch.Config.Printer
import GrammarBatch.Config.Reader
import GrammarBatch.Proofs.Except
import GrammarBatch.Proofs.Glob.PatternSet
import GrammarBatch.Proofs.Json.Results
import GrammarBatch.Proofs.Json.Schema
import GrammarBatch.Proofs.Text.Utf8

/-!
# Configurations read back

* `PatternSet.ofList_texts`: a set is the set of its texts;
* `ToolOptions.reads_toValue`, `ToolCommand.reads_toValue`: each record is read from the object that is written
  for it;
* `BuildConfig.HasTexts`: the paths of a configuration are texts, and so they are where it was read;
* **`BuildConfig.ofText_toText`**: what is written for a configuration is read as that configuration.
-/

namespace GrammarBatch

open Json Json.Reader Json.Schema

theorem PatternSet.ofList_texts (s : PatternSet) : ofList s.texts = s := by
  refine ext_texts fun t => ?_
  rw [ofList, mem_texts_insertAll]
  simp

theorem PatternSet.reads_toValue (s : PatternSet) : Reads reader s.toValue.chars s := by
  intro rest hrest
  have hlist := reads_listOf s.texts (g := Value.text) (fun t _ => reads_text t) rest hrest
  change (listOf text >>= fun texts => pure (ofList texts)) _ = _
  rw [toValue, bind_ok _ hlist, ofList_texts]
  rfl

theorem MessageFormat.reads_name (f : MessageFormat) : Reads reader (Value.text f.name).chars f :=
  reads_choice (by cases f <;> rfl)

theorem Path.reads_text (t : String) : Reads reader (Value.text t).chars (ofString t) := reads_textOf rfl

theorem Path.text?_eq_some_iff {p : Path} {t : String} : p.text? = some t ↔ p = ofString t := by
  rw [text?, Utf8.decode?_eq_some_iff]
  constructor
  · exact fun h => congrArg Path.mk h
  · rintro rfl
    rfl

theorem Path.exists_text?_ofString (t : String) : ∃ u, (ofString t).text? = some u :=
  ⟨t, text?_eq_some_iff.2 rfl⟩

theorem Path.reads_optional (t : Option String) :
    Reads (optional reader) (Value.ofText? t).chars (t.map ofString) := by
  cases t with
  | none => exact reads_null reader
  | some t => exact reads_some (reads_text t) rfl (by decide)

theorem ToolOptions.reads_toValue (o : ToolOptions) : Reads reader o.toValue.chars o := by
  refine reads_record ?_
  exact .cons (reads_of (reads_flag o.report)) <| .cons (reads_of (reads_flag o.printGrammar)) <|
    .cons (reads_of (reads_flag o.debug)) <| .cons (reads_of (reads_flag o.profile)) <|
    .cons (reads_of (reads_flag o.nfa)) <| .cons (reads_of (reads_flag o.dfa)) <|
    .cons (reads_of (reads_flag o.trace)) <| .cons (reads_of o.messageFormat.reads_name) <|
    .cons (reads_of (reads_flag o.verbose)) <| .cons (reads_of (reads_word32 o.maxSwitchCaseLabels)) <|
    .cons (reads_of (reads_word32 o.minSwitchAlts)) .nil

theorem ToolCommand.reads_toValue (c : ToolCommand) : Reads reader c.toValue.chars c := by
  refine reads_record ?_
  exact .cons (reads_of (Schema.reads_text c.program)) <|
    .cons (reads_of (reads_listOf c.args fun t _ => Schema.reads_text t)) .nil

namespace BuildConfig

variable {c : BuildConfig} {v : Value} {t : String}

theorem mapM_text?_eq_some {d : Option Path} {lib : Option String} (h : d.mapM Path.text? = some lib) :
    d = lib.map Path.ofString := by
  cases d with
  | none =>
    cases h
    rfl
  | some p =>
    obtain ⟨t, ht, hl⟩ := Option.map_eq_some_iff.1 h
    rw [← hl, Path.text?_eq_some_iff.1 ht]
    rfl

theorem reads_toValue (h : c.toValue? = some v) : Reads reader v.chars c := by
  obtain ⟨source, hs, h⟩ := Option.bind_eq_some_iff.1 h
  obtain ⟨output, ho, h⟩ := Option.bind_eq_some_iff.1 h
  obtain ⟨lib, hl, h⟩ := Option.bind_eq_some_iff.1 h
  obtain ⟨sourceDir, outputDir, libDir, includes, excludes, defaultExcludes, options, tool⟩ := c
  obtain rfl : sourceDir = _ := Path.text?_eq_some_iff.1 hs
  obtain rfl : outputDir = _ := Path.text?_eq_some_iff.1 ho
  obtain rfl : libDir = _ := mapM_text?_eq_some hl
  cases h
  refine reads_record ?_
  exact .cons (reads_of (Path.reads_text source)) <| .cons (reads_of (Path.reads_text output)) <|
    .cons (reads_of (Path.reads_optional lib)) <| .cons (reads_of includes.reads_toValue) <|
    .cons (reads_of excludes.reads_toValue) <| .cons (reads_of (reads_flag defaultExcludes)) <|
    .cons (reads_of options.reads_toValue) <| .cons (reads_of tool.reads_toValue) .nil

theorem ofText_of_toText? (h : c.toText? = some t) : ofText t = .ok c := by
  obtain ⟨v, hv, rfl⟩ := Option.map_eq_some_iff.1 h
  have hread : reader.run v.chars = .ok c := run_of_reads (reads_toValue hv)
  rw [ofText, Value.compact, String.toList_ofList, hread]
  rfl

/-- The paths of the configuration are texts. -/
def HasTexts (c : BuildConfig) : Prop :=
  (∃ t, c.sourceDir.text? = some t) ∧ (∃ t, c.outputDir.text? = some t) ∧
    ∀ p ∈ c.libDir, ∃ t, p.text? = some t

theorem exists_toText? (h : c.HasTexts) : ∃ t, c.toText? = some t := by
  obtain ⟨⟨source, hs⟩, ⟨output, ho⟩, hl⟩ := h
  obtain ⟨lib, hl⟩ : ∃ lib, c.libDir.mapM Path.text? = some lib := by
    cases hd : c.libDir with
    | none => exact ⟨none, rfl⟩
    | some p =>
      obtain ⟨t, ht⟩ := hl p hd
      exact ⟨some t, by rw [Option.mapM_some, ht]; rfl⟩
  rw [toText?, toValue?, hs, ho, hl]
  exact ⟨_, rfl⟩

theorem hasTexts_of_ofText (h : ofText t = .ok c) : c.HasTexts := by
  have hpath : Yields Path.reader fun p => ∃ u, p.text? = some u := by
    refine yields_textOf fun t p hp => ?_
    cases hp
    exact Path.exists_text?_ofString t
  have hkeeps : ∀ f ∈ table, Keeps HasTexts f := by
    intro f hf
    simp only [table, List.mem_cons, List.not_mem_nil, or_false] at hf
    rcases hf with rfl | rfl | rfl | rfl | rfl | rfl | rfl | rfl
    · exact keeps_of hpath fun p c hp hc => ⟨hp, hc.2⟩
    · exact keeps_of hpath fun p c hp hc => ⟨hc.1, hp, hc.2.2⟩
    · exact keeps_of (yields_optional hpath) fun d c hd hc => ⟨hc.1, hc.2.1, hd⟩
    all_goals exact keeps_of (yields_any _) fun _ _ _ hc => hc
  have hdefault : HasTexts {} := ⟨Path.exists_text?_ofString _, Path.exists_text?_ofString _, nofun⟩
  have hreader : Yields reader HasTexts := yields_record hkeeps hdefault
  exact of_run hreader (mapError_eq_ok.1 h)

/-- **What is written for a configuration whose paths are texts is read as that configuration, whatever the
texts and the options are; and what is read can be written in one way, which is read and written so again.** -/
theorem ofText_toText (c : BuildConfig) :
    (c.HasTexts → ∃ t, c.toText? = some t ∧ ofText t = .ok c) ∧
    ∀ t, ofText t = .ok c → ∃ s, c.toText? = some s ∧ ofText s = .ok c ∧
      (ofText s).toOption.bind toText? = some s := by
  refine ⟨fun h => ?_, fun t h => ?_⟩
  · obtain ⟨t, ht⟩ := exists_toText? h
    exact ⟨t, ht, ofText_of_toText? ht⟩
  · obtain ⟨s, hs⟩ := exists_toText? (hasTexts_of_ofText h)
    have hread := ofText_of_toText? hs
    exact ⟨s, hs, hread, by rw [hread]; exact hs⟩

/-- Texts with a quotation mark, a reverse solidus, control characters and a character past `U+FFFF`, an empty
path and an option that is not the default. -/
theorem ofText_toText_odd :
    let c : BuildConfig :=
      { sourceDir := .ofString "a\"b\\", outputDir := .ofString "\x01\n𝄞/é", libDir := some (.ofString "")
        includes := .ofList ["**/𝄞.g4", "b\t"], options := { report := true, maxSwitchCaseLabels := 7 }
        tool := { program := "/", args := ["\x7f", "\"\""] } }
    c.HasTexts ∧ ∃ t, c.toText? = some t ∧ ofText t = .ok c ∧ ∃ s, c.toText? = some s ∧ ofText s = .ok c ∧
      (ofText s).toOption.bind toText? = some s := by
  intro c
  have hc : c.HasTexts := by
    refine ⟨Path.exists_text?_ofString _, Path.exists_text?_ofString _, fun p hp => ?_⟩
    cases hp
    exact Path.exists_text?_ofString _
  obtain ⟨t, ht, hread⟩ := (ofText_toText c).1 hc
  exact ⟨hc, t, ht, hread, (ofText_toText c).2 t hread⟩

end BuildConfig

end GrammarBatch
