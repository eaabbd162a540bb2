/-!
# Refusals of the operating system

A `SystemError` is why the system, or the layer that talks to it, did not do what it was asked for.
`SystemError.message` is its text: the system's own words with the number of the error, or the layer's.
-/

namespace GrammarBatch

/-- Why the system did not do what it was asked for. -/
inductive SystemError where
  | notFound
  | permissionDenied
  | argumentsTooLong
  /-- The file does not hold a program. -/
  | notAProgram
  | alreadyExists
  /-- The path goes on below something that is no directory. -/
  | notADirectory
  | isADirectory
  | nameTooLong
  | tooManyLinks
  | notText
  | emptyPath
  | zeroInPath
  | zeroInData
  /-- Another refusal, in its own words. -/
  | other (text : String)
deriving DecidableEq, Repr

namespace SystemError

/-- The number of the error, where the system itself refused. -/
def number? : SystemError → Option Nat
  | notFound => some 2
  | argumentsTooLong => some 7
  | notAProgram => some 8
  | permissionDenied => some 13
  | alreadyExists => some 17
  | notADirectory => some 20
  | isADirectory => some 21
  | nameTooLong => some 36
  | tooManyLinks => some 40
  | _ => none

/-- The words for the error. -/
def words : SystemError → String
  | notFound => "No such file or directory"
  | permissionDenied => "Permission denied"
  | argumentsTooLong => "Argument list too long"
  | notAProgram => "Exec format error"
  | alreadyExists => "File exists"
  | notADirectory => "Not a directory"
  | isADirectory => "Is a directory"
  | nameTooLong => "File name too long"
  | tooManyLinks => "Too many levels of symbolic links"
  | notText => "stream did not contain valid UTF-8"
  | emptyPath => "cannot make an empty path absolute"
  | zeroInPath => "file name contained an unexpected NUL byte"
  | zeroInData => "nul byte found in provided data"
  | other text => text

/-- How the error is told. -/
def message (e : SystemError) : String :=
  match e.number? with
  | some n => e.words ++ " (os error " ++ toString n ++ ")"
  | none => e.words

end SystemError

end GrammarBatch
