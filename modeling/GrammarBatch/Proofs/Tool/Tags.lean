import GrammarBatch.Config.Basic
import GrammarBatch.Tool.Diagnostic
import Mathlib

/-!
# What the tag of a line says

* `Notice.written`: something that the tool has to say, as a line in each layout;
* `Diagnostic.occursIn_iff`, `Diagnostic.taggedWith_append`: where a tag can stand in a line;
* **`Diagnostic.classify_written`**: a line is of the kind that its tag says, but for a warning with its place in
  front whose message names errors in the way a tag does;
* `Diagnostic.classify_misreads`: such a warning counts as an error.
-/

namespace GrammarBatch

/-- Something that the tool has to say about a place in a grammar. -/
structure Notice where
  isError : Bool
  number : Nat
  file : List Char
  line : Nat
  column : Nat
  message : List Char

namespace Notice

/-- The kind of line that it shall be. -/
def kind (n : Notice) : Diagnostic.Kind := if n.isError then .error else .warning

/-- The word of a tag. -/
def wordOf (isError : Bool) : List Char := if isError then "error".toList else "warning".toList

/-- The word of its tag. -/
def word (n : Notice) : List Char := wordOf n.isError

/-- A number in decimal. -/
def digits (n : Nat) : List Char := Nat.toDigits 10 n

/-- What the tool has to say, as a line in the layout of the format. -/
def written (n : Notice) : MessageFormat → List Char
  | .antlr =>
    n.word ++ '(' :: (digits n.number ++ ')' :: ':' :: ' ' :: (n.file ++ ':' :: (digits n.line ++
      ':' :: (digits n.column ++ ':' :: ' ' :: n.message))))
  | .gnu =>
    n.file ++ ':' :: (digits n.line ++ ':' :: (digits n.column ++
      ':' :: ' ' :: (n.word ++ ' ' :: (digits n.number ++ ':' :: ' ' :: n.message))))
  | .vs2005 =>
    n.file ++ '(' :: (digits n.line ++ ',' :: (digits n.column ++
      ')' :: ' ' :: ':' :: ' ' :: (n.word ++ ' ' :: (digits n.number ++ ':' :: ' ' :: n.message))))

/-- The file is named like a grammar: the name ends in `.g`, and neither a blank nor a sign that sets a place
off is in it. -/
structure NamesGrammar (n : Notice) : Prop where
  extension : ['.', 'g'] <:+ n.file
  plain : ∀ c ∈ n.file, Text.isBlank c = false ∧ c ≠ ':' ∧ c ≠ '('

/-- The message, with the colon and the blank in front of it, names errors in the way a tag does. Case does not
count. -/
def NamesErrors (n : Notice) : Prop :=
  ∃ c ∈ [' ', ':'], ": error".toList ++ [c] <:+: ':' :: ' ' :: n.message.map Char.toLower

instance (n : Notice) : Decidable n.NamesErrors := inferInstanceAs (Decidable (∃ c ∈ _, _))

end Notice

/-! ## Lower case -/

section LowerCase

variable {c d : Char} {l : List Char}

theorem toLower_eq_self_or (c : Char) : c.toLower = c ∨ 0x61 ≤ c.toLower.toNat ∧ c.toLower.toNat ≤ 0x7A ∧
    0x41 ≤ c.toNat ∧ c.toNat ≤ 0x5A := by
  unfold Char.toLower
  split
  · rename_i h
    rw [ge_iff_le, UInt32.le_iff_toNat_le, UInt32.le_iff_toNat_le] at h
    have hA : 0x41 ≤ c.val.toNat := h.1
    have hZ : c.val.toNat ≤ 0x5A := h.2
    have hsum : (c.val + ('a'.val - 'A'.val)).toNat = c.val.toNat + 0x20 := by
      have hstep : ('a'.val - 'A'.val).toNat = 0x20 := rfl
      rw [UInt32.toNat_add, hstep]
      omega
    refine Or.inr ?_
    simp only [Char.toNat, hsum]
    omega
  · exact Or.inl rfl

/-- A sign that is no letter is in the text exactly where it is in the text in lower case. -/
theorem mem_map_toLower (hd : d.toNat < 0x41) : d ∈ l.map Char.toLower ↔ d ∈ l := by
  have heq (c : Char) : c.toLower = d ↔ c = d := by
    rcases toLower_eq_self_or c with h | ⟨h, -, h', -⟩
    · rw [h]
    · constructor
      · rintro rfl
        omega
      · rintro rfl
        omega
  simp only [List.mem_map, heq, exists_eq_right]

theorem isBlank_toLower (c : Char) : Text.isBlank c.toLower = Text.isBlank c := by
  rcases toLower_eq_self_or c with h | ⟨h₁, h₂, h₃, h₄⟩
  · rw [h]
  · have hnot (d : Char) (h : 0x41 ≤ d.toNat) (h' : d.toNat ≤ 0x7A) : Text.isBlank d = false := by
      simp only [Text.isBlank, Bool.or_eq_false_iff, Bool.and_eq_false_iff, decide_eq_false_iff_not,
        beq_eq_false_iff_ne]
      omega
    rw [hnot _ (by omega) h₂, hnot _ h₃ (by omega)]

theorem toLower_of_isDigit (h : c.isDigit = true) : c.toLower = c := by
  rcases toLower_eq_self_or c with h' | ⟨-, -, h', -⟩
  · exact h'
  · have h9 : c.val.toNat ≤ 0x39 := by
      simp only [Char.isDigit, Bool.and_eq_true, decide_eq_true_eq] at h
      exact UInt32.le_iff_toNat_le.1 h.2
    have hn : c.toNat = c.val.toNat := rfl
    omega

end LowerCase

namespace Notice

variable {n : Notice} {format : MessageFormat}

theorem isDigit_of_mem_digits {k : Nat} {c : Char} (h : c ∈ digits k) : c.isDigit = true :=
  Nat.isDigit_of_mem_toDigits (by decide) (by decide) h

theorem notMem_digits {k : Nat} {c : Char} (hc : c.isDigit = false) : c ∉ digits k := by
  intro h
  rw [isDigit_of_mem_digits h] at hc
  cases hc

theorem exists_digits (k : Nat) : ∃ c cs, digits k = c :: cs ∧ c ≠ ' ' := by
  obtain ⟨c, cs, hc⟩ := List.exists_cons_of_ne_nil (Nat.toDigits_ne_nil (n := k) (b := 10))
  refine ⟨c, cs, hc, ?_⟩
  rintro rfl
  have hm : ' ' ∈ digits k := by
    rw [digits, hc]
    exact List.mem_cons_self
  exact notMem_digits (by decide) hm

@[simp] theorem map_toLower_digits (k : Nat) : (digits k).map Char.toLower = digits k :=
  (List.map_congr_left fun _ hc => toLower_of_isDigit (isDigit_of_mem_digits hc)).trans (List.map_id _)

/-- What it has to say in lower case. -/
def lowered (n : Notice) : Notice :=
  { n with file := n.file.map Char.toLower, message := n.message.map Char.toLower }

theorem map_toLower_word (n : Notice) : n.word.map Char.toLower = n.word := by
  unfold word wordOf
  split <;> decide

theorem map_toLower_written (n : Notice) (format : MessageFormat) :
    (n.written format).map Char.toLower = n.lowered.written format := by
  have hsigns : ∀ c ∈ ['(', ')', ',', ':', ' '], c.toLower = c := by
    simp only [List.forall_mem_cons]
    exact ⟨rfl, rfl, rfl, rfl, rfl, nofun⟩
  cases format <;>
    simp only [written, List.map_append, List.map_cons, map_toLower_digits, map_toLower_word, hsigns,
      List.mem_cons, true_or, or_true] <;> rfl

theorem NamesGrammar.dot_mem (h : n.NamesGrammar) : '.' ∈ n.file :=
  h.extension.subset (by decide)

end Notice

/-! ## Places of a tag -/

namespace Diagnostic

variable {needle text word a b l : List Char} {d : Char}

theorem occursIn_iff : occursIn needle text = true ↔ needle <:+: text := by
  induction text with
  | nil => rw [occursIn, List.isEmpty_iff, List.infix_nil]
  | cons c text ih => rw [occursIn, Bool.or_eq_true, List.isPrefixOf_iff_prefix, ih, List.infix_cons_iff]

theorem leadsWith_iff : leadsWith word text = true ↔ word ++ ['('] <+: text := List.isPrefixOf_iff_prefix

theorem taggedWith_iff : taggedWith word text = true ↔
    ∃ c ∈ [' ', ':'], ':' :: ' ' :: (word ++ [c]) <:+: text := by
  simp [taggedWith, occursIn_iff]

theorem infix_append_iff (ha : ':' ∉ a) : ':' :: l <:+: a ++ b ↔ ':' :: l <:+: b := by
  induction a with
  | nil => rfl
  | cons c a ih =>
    rw [List.mem_cons, not_or] at ha
    rw [List.cons_append, List.infix_cons_iff, ih ha.2, or_iff_right]
    intro h
    exact ha.1 (List.cons_prefix_cons.1 h).1

theorem taggedWith_append (ha : ':' ∉ a) : taggedWith word (a ++ b) = taggedWith word b := by
  rw [Bool.eq_iff_iff, taggedWith_iff, taggedWith_iff]
  simp only [infix_append_iff ha]

theorem taggedWith_cons (hd : d ≠ ' ') : taggedWith word (':' :: d :: b) = taggedWith word (d :: b) := by
  rw [Bool.eq_iff_iff, taggedWith_iff, taggedWith_iff]
  refine exists_congr fun c => and_congr_right fun _ => ?_
  rw [List.infix_cons_iff, or_iff_right]
  intro h
  exact hd (List.cons_prefix_cons.1 (List.cons_prefix_cons.1 h).2).1.symm

/-- From the colon in front of a tag on, there is the tag itself, and there may be one in the message. -/
theorem taggedWith_tag (n : Notice) (isError : Bool) :
    taggedWith (Notice.wordOf isError)
        (':' :: ' ' :: (n.word ++ ' ' :: (Notice.digits n.number ++ ':' :: ' ' :: n.message))) =
      (isError == n.isError || taggedWith (Notice.wordOf isError) (':' :: ' ' :: n.message)) := by
  have hword : ':' ∉ n.word := by
    unfold Notice.word Notice.wordOf
    split <;> decide
  have hcolon : ':' ∉ ' ' :: (n.word ++ ' ' :: Notice.digits n.number) := by
    simp [hword, Notice.notMem_digits]
  have hmessage : taggedWith (Notice.wordOf isError)
      (' ' :: (n.word ++ ' ' :: Notice.digits n.number) ++ ':' :: ' ' :: n.message) =
        taggedWith (Notice.wordOf isError) (':' :: ' ' :: n.message) := taggedWith_append hcolon
  rw [List.cons_append, List.append_assoc, List.cons_append] at hmessage
  rw [← hmessage, Bool.eq_iff_iff, Bool.or_eq_true, taggedWith_iff, taggedWith_iff]
  simp only [List.infix_cons_iff (a := ':'), and_or_left, exists_or]
  refine or_congr_left ?_
  cases isError <;> cases hn : n.isError <;> simp [Notice.word, Notice.wordOf, hn]

/-- In a line with its place in front there is its tag, and there may be one in the message. -/
theorem taggedWith_written {n : Notice} {format : MessageFormat} (hfile : ':' ∉ n.file)
    (hformat : format ≠ .antlr) (isError : Bool) :
    taggedWith (Notice.wordOf isError) (n.written format) =
      (isError == n.isError || taggedWith (Notice.wordOf isError) (':' :: ' ' :: n.message)) := by
  have hdigits (k : Nat) : ':' ∉ Notice.digits k := Notice.notMem_digits (by decide)
  rw [← taggedWith_tag]
  cases format with
  | antlr => exact absurd rfl hformat
  | gnu =>
    obtain ⟨c, cs, hc, hne⟩ := Notice.exists_digits n.line
    obtain ⟨d, ds, hd, hne'⟩ := Notice.exists_digits n.column
    rw [Notice.written, taggedWith_append hfile, hc, List.cons_append, taggedWith_cons hne, ← List.cons_append,
      ← hc, taggedWith_append (hdigits _), hd, List.cons_append, taggedWith_cons hne', ← List.cons_append, ← hd,
      taggedWith_append (hdigits _)]
  | vs2005 =>
    have hplace : ':' ∉ n.file ++ '(' :: (Notice.digits n.line ++
        ',' :: (Notice.digits n.column ++ [')', ' '])) := by simp [hfile, hdigits]
    refine Eq.trans ?_ (taggedWith_append hplace)
    simp only [Notice.written, List.append_assoc, List.cons_append, List.nil_append]

/-- A text that goes on after a file with a dot, and has no bracket up to there, does not lead with a word. -/
theorem leadsWith_append (hdot : '.' ∈ a) (hbracket : '(' ∉ a) (hword : '.' ∉ word) :
    leadsWith word (a ++ b) = false := by
  rw [Bool.eq_false_iff, Ne, leadsWith_iff]
  intro h
  rcases List.prefix_or_prefix_of_prefix h (List.prefix_append a b) with h | h
  · exact hbracket (h.subset (by simp))
  · have hm : '.' ∈ word ++ ['('] := h.subset hdot
    simp [hword] at hm

/-! ## The kind of a line -/

open Notice Text

variable {n : Notice} {format : MessageFormat} {blanks line : List Char}

theorem trimStart_append (hb : ∀ c ∈ blanks, isBlank c = true) (hl : ∀ c ∈ line.head?, isBlank c = false) :
    trimStart (blanks ++ line) = line := by
  rw [trimStart, List.dropWhile_append_of_pos hb]
  cases line with
  | nil => rfl
  | cons c line => rw [List.dropWhile_cons_of_neg (by simp [hl c rfl])]

theorem isBlank_head_written (hn : n.NamesGrammar) (format : MessageFormat) :
    ∀ c ∈ (n.written format).head?, isBlank c = false := by
  have hword (rest : List Char) : ∀ c ∈ (n.word ++ rest).head?, isBlank c = false := by
    unfold Notice.word wordOf
    split <;> simp [isBlank]
  have hfile (rest : List Char) : ∀ c ∈ (n.file ++ rest).head?, isBlank c = false := by
    cases hf : n.file with
    | nil => exact absurd hn.dot_mem (by simp [hf])
    | cons d ds =>
      intro c hc
      rw [List.cons_append, List.head?_cons] at hc
      cases hc
      exact (hn.plain d (by simp [hf])).1
  cases format with
  | antlr => exact hword _
  | gnu => exact hfile _
  | vs2005 => exact hfile _

theorem map_toLower_trimStart (hn : n.NamesGrammar) (hb : ∀ c ∈ blanks, isBlank c = true)
    (hl : line.map Char.toLower = (n.written format).map Char.toLower) :
    (trimStart (blanks ++ line)).map Char.toLower = n.lowered.written format := by
  rw [trimStart_append hb, hl, map_toLower_written]
  intro c hc
  have hhead : (line.map Char.toLower).head? = ((n.written format).map Char.toLower).head? := by rw [hl]
  rw [List.head?_map, List.head?_map, Option.mem_def.1 hc, Option.map_some] at hhead
  obtain ⟨d, hd, hcd⟩ := Option.map_eq_some_iff.1 hhead.symm
  rw [← isBlank_toLower, ← hcd, isBlank_toLower]
  exact isBlank_head_written hn format d hd

theorem taggedWith_message (n : Notice) :
    taggedWith (wordOf true) (':' :: ' ' :: n.lowered.message) = decide n.NamesErrors := by
  rw [Bool.eq_iff_iff, taggedWith_iff, decide_eq_true_iff]
  rfl

theorem leadsWith_written (n : Notice) (isError : Bool) :
    leadsWith (wordOf isError) (n.written .antlr) = (isError == n.isError) := by
  rw [Bool.eq_iff_iff, leadsWith_iff]
  cases isError <;> cases h : n.isError <;> simp [written, word, wordOf, h]

theorem not_leadsWith_written (hn : n.NamesGrammar) (hformat : format ≠ .antlr) (isError : Bool) :
    leadsWith (wordOf isError) (n.lowered.written format) = false := by
  have hdot : '.' ∈ n.lowered.file := (mem_map_toLower (by decide)).2 hn.dot_mem
  have hbracket : '(' ∉ n.lowered.file := by
    intro h
    exact (hn.plain _ ((mem_map_toLower (by decide)).1 h)).2.2 rfl
  have hword : '.' ∉ wordOf isError := by cases isError <;> decide
  cases format with
  | antlr => exact absurd rfl hformat
  | gnu => exact leadsWith_append hdot hbracket hword
  | vs2005 => exact leadsWith_append hdot hbracket hword

/-- **A line is of the kind that its tag says, whatever the message is and however the line is written, but for
one case: a warning with its place in front counts as an error if its message names errors in the way a tag
does.** -/
theorem classify_written (hn : n.NamesGrammar) (hb : ∀ c ∈ blanks, isBlank c = true)
    (hl : line.map Char.toLower = (n.written format).map Char.toLower) :
    classify (blanks ++ line) = if format = .antlr ∨ ¬ n.NamesErrors then n.kind else .error := by
  have herror : "error".toList = wordOf true := rfl
  have hwarning : "warning".toList = wordOf false := rfl
  rw [classify, map_toLower_trimStart hn hb hl, herror, hwarning]
  by_cases hformat : format = .antlr
  · subst hformat
    rw [if_pos (Or.inl rfl), leadsWith_written, leadsWith_written, Notice.kind]
    cases he : n.isError <;> simp [lowered, he]
  · have hcolon : ':' ∉ n.lowered.file := by
      intro h
      exact (hn.plain _ ((mem_map_toLower (by decide)).1 h)).2.1 rfl
    rw [not_leadsWith_written hn hformat, not_leadsWith_written hn hformat, taggedWith_written hcolon hformat,
      taggedWith_written hcolon hformat, taggedWith_message, Notice.kind]
    cases he : n.isError <;> by_cases hm : n.NamesErrors <;> simp [lowered, he, hm, hformat]

/-! ## A warning that counts as an error -/

theorem isBlank_of_isAlphanum {c : Char} (h : c.isAlphanum = true) :
    isBlank c = false ∧ c ≠ ':' ∧ c ≠ '(' := by
  have hrange : 0x30 ≤ c.toNat ∧ c.toNat ≤ 0x7A ∧ c.toNat ≠ 0x3A := by
    simp only [Char.isAlphanum, Char.isAlpha, Char.isUpper, Char.isLower, Char.isDigit, Bool.or_eq_true,
      Bool.and_eq_true, decide_eq_true_eq, ge_iff_le, UInt32.le_iff_toNat_le] at h
    change ((0x41 ≤ c.toNat ∧ c.toNat ≤ 0x5A) ∨ (0x61 ≤ c.toNat ∧ c.toNat ≤ 0x7A)) ∨
      (0x30 ≤ c.toNat ∧ c.toNat ≤ 0x39) at h
    omega
  refine ⟨?_, ?_, ?_⟩
  · simp only [isBlank, Bool.or_eq_false_iff, Bool.and_eq_false_iff, decide_eq_false_iff_not,
      beq_eq_false_iff_ne]
    omega
  · rintro rfl
    exact hrange.2.2 rfl
  · rintro rfl
    exact absurd hrange.1 (by decide)

theorem namesGrammar_of_plain (he : ['.', 'g'] <:+ n.file)
    (h : ∀ c ∈ n.file, c.isAlphanum = true ∨ c ∈ ['_', '-', '.', '/']) : n.NamesGrammar := by
  refine ⟨he, fun c hc => ?_⟩
  rcases h c hc with hc | hc
  · exact isBlank_of_isAlphanum hc
  · simp only [List.mem_cons, List.not_mem_nil, or_false] at hc
    rcases hc with rfl | rfl | rfl | rfl <;> exact ⟨rfl, nofun, nofun⟩

/-- A warning whose message names errors. -/
def tokenWarning : Notice := ⟨false, 105, "sub-dir/T_1.g".toList, 5, 3, "no rule for: ERROR : token".toList⟩

theorem namesGrammar_tokenWarning : tokenWarning.NamesGrammar :=
  namesGrammar_of_plain (by decide +kernel) (by
    simp [tokenWarning, Char.isAlphanum, Char.isAlpha, Char.isUpper, Char.isLower, Char.isDigit])

/-- With its tag in front, the warning is one, in capital letters too. -/
theorem classify_written_shouted :
    tokenWarning.NamesGrammar ∧ tokenWarning.NamesErrors ∧
    classify "\t WARNING(105): SUB-DIR/T_1.G:5:3: NO RULE FOR: ERROR : TOKEN".toList = .warning := by
  have hblanks : ∀ c ∈ ['\t', ' '], isBlank c = true := by
    simp only [List.forall_mem_cons]
    exact ⟨rfl, rfl, nofun⟩
  refine ⟨namesGrammar_tokenWarning, ⟨' ', by simp, ": no rule for".toList, ": token".toList, ?_⟩, ?_⟩
  · decide +kernel
  · have hcapitals : "WARNING(105): SUB-DIR/T_1.G:5:3: NO RULE FOR: ERROR : TOKEN".toList.map Char.toLower =
        (tokenWarning.written .antlr).map Char.toLower := by decide +kernel
    exact (classify_written namesGrammar_tokenWarning hblanks hcapitals).trans (if_pos (Or.inl rfl))

/-- With its place in front, it counts as an error. -/
theorem classify_misreads :
    tokenWarning.NamesGrammar ∧ '\n' ∉ tokenWarning.message ∧ tokenWarning.kind = .warning ∧
    tokenWarning.written .gnu = "sub-dir/T_1.g:5:3: warning 105: no rule for: ERROR : token".toList ∧
    classify (tokenWarning.written .gnu) = .error ∧ classify (tokenWarning.written .vs2005) = .error :=
  ⟨namesGrammar_tokenWarning, by decide +kernel, rfl, by decide +kernel, by decide +kernel, by decide +kernel⟩

end Diagnostic

end GrammarBatch
