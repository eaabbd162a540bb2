import GrammarBatch.CommandLine.Argument
import GrammarBatch.Config.Overrides

/-!
# Settings on the command line

A `Setting` is an argument with its value read.

* `Setting.ofValue`: an argument and the bytes of its value;
* `Setting.lay`: the setting laid over the overrides that the ones before it gave.

A path may be any bytes but none; other values are texts. A number is written in decimal with an optional
sign, must first fit into 64 bits, and then into 32 without a sign.
-/

namespace GrammarBatch.CommandLine

/-- Why a text is no integer of 64 bits. -/
inductive IntegerFault where
  | empty
  | badDigit
  | tooLarge
  | tooSmall
deriving DecidableEq, Repr

/-- How the fault is told. -/
def IntegerFault.message : IntegerFault → String
  | empty => "cannot parse integer from empty string"
  | badDigit => "invalid digit found in string"
  | tooLarge => "number too large to fit in target type"
  | tooSmall => "number too small to fit in target type"

/-- The digits put behind `acc`, as long as the number is at most `bound`. The first fault from the left
counts. -/
def readDigits (bound : Nat) (overflow : IntegerFault) (acc : Nat) : List Char → Except IntegerFault Nat
  | [] => .ok acc
  | c :: cs =>
    if !c.isDigit then .error .badDigit
    else
      let acc := acc * 10 + (c.toNat - '0'.toNat)
      if bound < acc then .error overflow else readDigits bound overflow acc cs

/-- The integer of 64 bits that a text spells. -/
def readInteger : List Char → Except IntegerFault Int
  | [] => .error .empty
  | ['+'] | ['-'] => .error .badDigit
  | '-' :: cs => (readDigits (Nat.pow 2 63) .tooSmall 0 cs).map fun n => -(n : Int)
  | '+' :: cs => (readDigits (Nat.pow 2 63 - 1) .tooLarge 0 cs).map fun n => (n : Int)
  | cs => (readDigits (Nat.pow 2 63 - 1) .tooLarge 0 cs).map fun n => (n : Int)

/-- Why a value was refused. -/
inductive ValueFault where
  /-- There is none, or an empty one where that is the same. -/
  | missing
  | unknown (value : String)
  | badNumber (value : String) (detail : String)
  | notText
deriving DecidableEq, Repr

/-- An argument with its value read. -/
inductive Setting where
  | verbose
  | quiet
  | config (p : Path)
  | sourceDir (p : Path)
  | outputDir (p : Path)
  | libDir (p : Path)
  | includePattern (s : String)
  | excludePattern (s : String)
  | noDefaultExcludes
  | report
  | printGrammar
  | debugCodegen
  | profile
  | nfa
  | dfa
  | trace
  | messageFormat (f : MessageFormat)
  | quietTool
  | maxSwitchCaseLabels (n : UInt32)
  | minSwitchAlts (n : UInt32)
  | tool (s : String)
  | toolArg (s : String)
  | json
deriving DecidableEq

namespace Setting

/-- The argument of the setting. -/
def argument : Setting → Argument
  | verbose => .verbose
  | quiet => .quiet
  | config _ => .config
  | sourceDir _ => .sourceDir
  | outputDir _ => .outputDir
  | libDir _ => .libDir
  | includePattern _ => .includePattern
  | excludePattern _ => .excludePattern
  | noDefaultExcludes => .noDefaultExcludes
  | report => .report
  | printGrammar => .printGrammar
  | debugCodegen => .debugCodegen
  | profile => .profile
  | nfa => .nfa
  | dfa => .dfa
  | trace => .trace
  | messageFormat _ => .messageFormat
  | quietTool => .quietTool
  | maxSwitchCaseLabels _ => .maxSwitchCaseLabels
  | minSwitchAlts _ => .minSwitchAlts
  | tool _ => .tool
  | toolArg _ => .toolArg
  | json => .json

/-- The setting of an argument that takes no value; help and version are requests, not settings. -/
def ofFlag? : Argument → Option Setting
  | .verbose => some verbose
  | .quiet => some quiet
  | .noDefaultExcludes => some noDefaultExcludes
  | .report => some report
  | .printGrammar => some printGrammar
  | .debugCodegen => some debugCodegen
  | .profile => some profile
  | .nfa => some nfa
  | .dfa => some dfa
  | .trace => some trace
  | .quietTool => some quietTool
  | .json => some json
  | _ => none

/-- Reads a path. -/
def readPath (b : Bytes) : Except ValueFault Path := if b = [] then .error .missing else .ok ⟨b⟩

/-- Reads a text. -/
def readText (b : Bytes) : Except ValueFault String :=
  match Utf8.decode? b with
  | some s => .ok s
  | none => .error .notText

/-- Reads a message format. -/
def readFormat (b : Bytes) : Except ValueFault MessageFormat := do
  let s ← readText b
  match MessageFormat.ofName? s with
  | some f => .ok f
  | none => .error (if s = "" then .missing else .unknown s)

/-- Reads a natural number of 32 bits. -/
def readWord (b : Bytes) : Except ValueFault UInt32 := do
  let s ← readText b
  match readInteger s.toList with
  | .error f => .error (.badNumber s f.message)
  | .ok n =>
    if 0 ≤ n ∧ n < Nat.pow 2 32 then .ok (UInt32.ofNat n.toNat)
    else .error (.badNumber s (toString n ++ " is not in 0..=4294967295"))

/-- The setting of an argument that takes a value. -/
def ofValue (a : Argument) (b : Bytes) : Except ValueFault Setting :=
  match a with
  | .config => (readPath b).map config
  | .sourceDir => (readPath b).map sourceDir
  | .outputDir => (readPath b).map outputDir
  | .libDir => (readPath b).map libDir
  | .includePattern => (readText b).map includePattern
  | .excludePattern => (readText b).map excludePattern
  | .messageFormat => (readFormat b).map messageFormat
  | .maxSwitchCaseLabels => (readWord b).map maxSwitchCaseLabels
  | .minSwitchAlts => (readWord b).map minSwitchAlts
  | .tool => (readText b).map tool
  | .toolArg => (readText b).map toolArg
  | _ => .error .missing

/-- The overrides with one setting more. -/
def lay (o : Overrides) : Setting → Overrides
  | sourceDir p => { o with sourceDir := some p }
  | outputDir p => { o with outputDir := some p }
  | libDir p => { o with libDir := some p }
  | includePattern s => { o with includes := o.includes ++ [s] }
  | excludePattern s => { o with excludes := o.excludes ++ [s] }
  | noDefaultExcludes => { o with noDefaultExcludes := true }
  | report => { o with report := true }
  | printGrammar => { o with printGrammar := true }
  | debugCodegen => { o with debug := true }
  | profile => { o with profile := true }
  | nfa => { o with nfa := true }
  | dfa => { o with dfa := true }
  | trace => { o with trace := true }
  | messageFormat f => { o with messageFormat := some f }
  | quietTool => { o with quietTool := true }
  | maxSwitchCaseLabels n => { o with maxSwitchCaseLabels := some n }
  | minSwitchAlts n => { o with minSwitchAlts := some n }
  | tool s => { o with tool := some s }
  | toolArg s => { o with toolArgs := o.toolArgs ++ [s] }
  | verbose | quiet | config _ | json => o

/-- The overrides that the settings give. -/
def overrides (settings : List Setting) : Overrides := settings.foldl lay {}

/-- The configuration file that is named. -/
def configPath? (settings : List Setting) : Option Path :=
  settings.findSome? fun s =>
    match s with
    | config p => some p
    | _ => none

end Setting

end GrammarBatch.CommandLine
