import GrammarBatch.CommandLine.Help
import GrammarBatch.CommandLine.Setting
import GrammarBatch.Text.Plain

/-!
# Command lines that ask for nothing to be done

`Stop` is why the program ends before it does anything: help or the version was asked for, or the command
line is refused (`Misuse`). `Misuse.message` is what is said about it.
-/

namespace GrammarBatch.CommandLine

open Text (emphasised plain)

/-- Why a command line is refused. -/
inductive Misuse where
  | unknownArgument (text : String)
  | unknownVerb (text : String)
  | unwantedValue (argument : Argument) (value : String)
  | badValue (argument : Argument) (fault : ValueFault)
  | repeated (argument : Argument)
  /-- Two arguments that exclude each other, the first one given first. -/
  | conflict (first second : Argument)
  | missingVerb (program : Option String)
  | nothing
deriving DecidableEq, Repr

/-- What is said about the misuse. What the command line gave is emphasised. -/
def Misuse.words : Misuse → String
  | unknownArgument text => "error: unexpected argument '" ++ emphasised text ++ "' found"
  | unknownVerb text => "error: unrecognized subcommand '" ++ emphasised text ++ "'"
  | unwantedValue a value =>
    "error: unexpected value '" ++ emphasised value ++ "' for '" ++ a.display ++
      "' found; no more were expected"
  | badValue a .missing => "error: a value is required for '" ++ a.display ++ "' but none was supplied"
  | badValue a (.unknown value) =>
    "error: invalid value '" ++ emphasised value ++ "' for '" ++ a.display ++ "'"
  | badValue a (.badNumber value detail) =>
    "error: invalid value '" ++ emphasised value ++ "' for '" ++ a.display ++ "': " ++ detail
  | badValue _ .notText => "error: invalid UTF-8 was detected in one or more arguments"
  | repeated a => "error: the argument '" ++ a.display ++ "' cannot be used multiple times"
  | conflict a b => "error: the argument '" ++ a.display ++ "' cannot be used with '" ++ b.display ++ "'"
  | missingVerb program =>
    "error: '" ++ emphasised (program.getD programName) ++
      "' requires a subcommand but one was not provided"
  | nothing => programPurpose

/-- What is said about the misuse, without terminal control. -/
def Misuse.message (m : Misuse) : String := plain m.words

/-- Why the program ends before it does anything. -/
inductive Stop where
  | help (text : String)
  | version
  | misuse (m : Misuse)

end GrammarBatch.CommandLine
