import GrammarBatch.Proofs.CommandLine.Written
import GrammarBatch.Proofs.Path.Mirror
import GrammarBatch.Tool.Batch
import Mathlib

/-!
# Reading the arguments of the tool again

The first four arguments and the last of the options have their places, and no flag of an option is the one that
comes behind the flags. So it is known where each part ends, whatever the directories and the grammars look like.

* `ToolOptions.ofArguments?`, `Binding.ofArguments?`: what arguments say, and the arguments behind the options;
* `ToolOptions.mem_flags`: the flags that are there;
* `ToolOptions.ofArguments?_append`: the options are read again in front of anything;
* **`Binding.arguments_injective`**: so are the binding and the grammars.
-/

namespace GrammarBatch

open CommandLine

theorem Utf8.encode_injective : encode.Injective := fun s t h =>
  Option.some.inj (by rw [← decode?_encode s, h, decode?_encode])

namespace ToolOptions

variable {o : ToolOptions} {flag : String}

/-- Whether the flag is in front of the layout of the messages. -/
def isGiven (args : List Bytes) (flag : String) : Bool :=
  (args.takeWhile (· != Utf8.encode "-message-format")).contains (Utf8.encode flag)

/-- The options that arguments give, and the arguments behind them. -/
def ofArguments? (args : List Bytes) : Option (ToolOptions × List Bytes) :=
  match args.dropWhile (· != Utf8.encode "-message-format") with
  | _ :: format :: _ :: most :: _ :: least :: rest => do
    let messageFormat ← (Setting.readFormat format).toOption
    let maxSwitchCaseLabels ← (Setting.readWord most).toOption
    let minSwitchAlts ← (Setting.readWord least).toOption
    let options : ToolOptions :=
      { report := isGiven args "-report"
        printGrammar := isGiven args "-print"
        debug := isGiven args "-debug"
        profile := isGiven args "-profile"
        nfa := isGiven args "-nfa"
        dfa := isGiven args "-dfa"
        trace := isGiven args "-trace"
        messageFormat
        verbose := isGiven args "-verbose"
        maxSwitchCaseLabels
        minSwitchAlts }
    return (options, rest)
  | _ => none

/-- A flag is there if its option is turned on. -/
theorem mem_flags : flag ∈ o.flags ↔ (true, flag) ∈
    [(o.report, "-report"), (o.printGrammar, "-print"), (o.debug, "-debug"), (o.profile, "-profile"),
      (o.nfa, "-nfa"), (o.dfa, "-dfa"), (o.trace, "-trace"), (o.verbose, "-verbose")] := by
  rw [flags, List.mem_filterMap]
  constructor
  · rintro ⟨⟨on, f⟩, hmem, hf⟩
    cases on with
    | false => cases hf
    | true =>
      cases hf
      exact hmem
  · exact fun h => ⟨_, h, rfl⟩

theorem ne_of_mem_flags (h : flag ∈ o.flags) : flag ≠ "-message-format" := by
  rintro rfl
  simp [mem_flags] at h

theorem ne_of_mem_encode_flags {b : Bytes} (hb : b ∈ o.flags.map Utf8.encode) :
    (b != Utf8.encode "-message-format") = true := by
  obtain ⟨flag, hflag, rfl⟩ := List.mem_map.1 hb
  exact bne_iff_ne.2 (Utf8.encode_injective.ne (ne_of_mem_flags hflag))

theorem isGiven_arguments (o : ToolOptions) (rest : List Bytes) (flag : String) :
    isGiven (o.arguments.map Utf8.encode ++ rest) flag = true ↔ flag ∈ o.flags := by
  have htake : (o.arguments.map Utf8.encode ++ rest).takeWhile (· != Utf8.encode "-message-format") =
      o.flags.map Utf8.encode := by
    rw [arguments, List.map_append, List.append_assoc, List.takeWhile_append_of_pos fun _ => ne_of_mem_encode_flags]
    exact List.append_nil _
  rw [isGiven, htake, List.contains_iff_mem, List.mem_map_of_injective Utf8.encode_injective]

theorem dropWhile_arguments (o : ToolOptions) (rest : List Bytes) :
    (o.arguments.map Utf8.encode ++ rest).dropWhile (· != Utf8.encode "-message-format") =
      ["-message-format", o.messageFormat.name, "-Xmaxswitchcaselabels", toString o.maxSwitchCaseLabels.toNat,
        "-Xminswitchalts", toString o.minSwitchAlts.toNat].map Utf8.encode ++ rest := by
  rw [arguments, List.map_append, List.append_assoc, List.dropWhile_append_of_pos fun _ => ne_of_mem_encode_flags]
  rfl

theorem ofArguments?_append (o : ToolOptions) (rest : List Bytes) :
    ofArguments? (o.arguments.map Utf8.encode ++ rest) = some (o, rest) := by
  have hgiven {flag : String} {on : Bool} (h : flag ∈ o.flags ↔ on = true) :
      isGiven (o.arguments.map Utf8.encode ++ rest) flag = on :=
    Bool.eq_iff_iff.2 ((isGiven_arguments o rest flag).trans h)
  have hreport : isGiven _ "-report" = o.report := hgiven (by simp [mem_flags])
  have hprint : isGiven _ "-print" = o.printGrammar := hgiven (by simp [mem_flags])
  have hdebug : isGiven _ "-debug" = o.debug := hgiven (by simp [mem_flags])
  have hprofile : isGiven _ "-profile" = o.profile := hgiven (by simp [mem_flags])
  have hnfa : isGiven _ "-nfa" = o.nfa := hgiven (by simp [mem_flags])
  have hdfa : isGiven _ "-dfa" = o.dfa := hgiven (by simp [mem_flags])
  have htrace : isGiven _ "-trace" = o.trace := hgiven (by simp [mem_flags])
  have hverbose : isGiven _ "-verbose" = o.verbose := hgiven (by simp [mem_flags])
  have hformat := congrArg Except.toOption (Setting.readFormat_name o.messageFormat)
  have hmost := congrArg Except.toOption (Setting.readWord_toString o.maxSwitchCaseLabels)
  have hleast := congrArg Except.toOption (Setting.readWord_toString o.minSwitchAlts)
  unfold ofArguments?
  rw [dropWhile_arguments, hreport, hprint, hdebug, hprofile, hnfa, hdfa, htrace, hverbose]
  refine Option.bind_eq_some_iff.2 ⟨_, hformat, ?_⟩
  refine Option.bind_eq_some_iff.2 ⟨_, hmost, ?_⟩
  exact Option.bind_eq_some_iff.2 ⟨_, hleast, rfl⟩

end ToolOptions

namespace GrammarPath

theorem between?_toPath (g : GrammarPath) : between? ⟨[]⟩ g.toPath = some g := by
  have hjoin : g.inDirectory ⟨[]⟩ = g.toPath := Path.join_of_bytes_eq_nil rfl
  rw [between?_eq_some_iff, ← hjoin, components_inDirectory]

theorem mapM_between? (grammars : List GrammarPath) :
    (grammars.map (·.toPath.bytes)).mapM (fun bytes => between? ⟨[]⟩ ⟨bytes⟩) = some grammars := by
  induction grammars with
  | nil => rfl
  | cons g grammars ih =>
    rw [List.map_cons, List.mapM_cons, ih]
    change (between? ⟨[]⟩ g.toPath >>= _) = _
    rw [between?_toPath]
    rfl

end GrammarPath

namespace Binding

variable {b₁ b₂ : Binding} {t₁ t₂ : Batch}

/-- The binding that arguments give, and the grammars. -/
def ofArguments? : List Bytes → Option (Binding × List GrammarPath)
  | place :: output :: _ :: lib :: args => do
    let (options, rest) ← ToolOptions.ofArguments? args
    let grammars ← (rest.drop 1).mapM fun bytes => GrammarPath.between? ⟨[]⟩ ⟨bytes⟩
    return (⟨⟨output⟩, ⟨lib⟩, place == Utf8.encode "-o", options⟩, grammars)
  | _ => none

theorem ofArguments?_arguments (b : Binding) {t : Batch} (ht : t.make = true) :
    ofArguments? (b.arguments t) = some (b, t.grammars) := by
  have hplace : (Utf8.encode (if b.forceRelativeOutput then "-o" else "-fo") == Utf8.encode "-o") =
      b.forceRelativeOutput := by
    cases b.forceRelativeOutput <;> decide
  rw [arguments, ht, List.append_assoc, List.append_assoc]
  refine Option.bind_eq_some_iff.2 ⟨_, ToolOptions.ofArguments?_append b.options _, ?_⟩
  refine Option.bind_eq_some_iff.2 ⟨_, GrammarPath.mapM_between? t.grammars, ?_⟩
  rw [hplace]
  rfl

/-- **Runs that sort their grammars have the same arguments only for the same binding and the same grammars in the same
order: both are read again from the arguments.** -/
theorem arguments_injective (h₁ : t₁.make = true) (h₂ : t₂.make = true) :
    ofArguments? (b₁.arguments t₁) = some (b₁, t₁.grammars) ∧
      (b₁.arguments t₁ = b₂.arguments t₂ ↔ b₁ = b₂ ∧ t₁.grammars = t₂.grammars) := by
  refine ⟨ofArguments?_arguments b₁ h₁, fun h => ?_, ?_⟩
  · have hread := ofArguments?_arguments b₁ h₁
    rw [h, ofArguments?_arguments b₂ h₂] at hread
    exact Prod.mk.inj (Option.some.inj hread.symm)
  · rintro ⟨rfl, hgrammars⟩
    rw [arguments, arguments, h₁, h₂, hgrammars]

/-- Directories that look like flags. -/
def oddBinding : Binding where
  outputDir := .ofString "-lib"
  libDir := .ofString "-message-format"
  forceRelativeOutput := false
  options := { verbose := false, trace := true, maxSwitchCaseLabels := 0, minSwitchAlts := 4294967295 }

/-- Grammars that look like a flag and like a number. -/
def oddBatch : Batch where
  inputDir := .ofString "/src"
  make := true
  grammars := [⟨[], .ofString "-make"⟩, ⟨[.ofString "-verbose"], .ofString "300"⟩]

/-- The directory of the second grammar as an option. -/
def verboseBinding : Binding := { oddBinding with options := { oddBinding.options with verbose := true } }

def flatBatch : Batch := { oddBatch with grammars := [⟨[], .ofString "-make"⟩, ⟨[], .ofString "300"⟩] }

theorem arguments_injective_odd :
    ofArguments? (["-fo", "-lib", "-lib", "-message-format", "-trace", "-message-format", "antlr",
      "-Xmaxswitchcaselabels", "0", "-Xminswitchalts", "4294967295", "-make", "-make", "-verbose/300"].map
        Utf8.encode) = some (oddBinding, oddBatch.grammars) ∧
      oddBinding.arguments oddBatch ≠ verboseBinding.arguments flatBatch := by
  obtain ⟨hread, hsame⟩ := @arguments_injective oddBinding verboseBinding oddBatch flatBatch rfl rfl
  refine ⟨hread, fun h => ?_⟩
  exact absurd (hsame.1 h).2 (by decide)

end Binding

end GrammarBatch
