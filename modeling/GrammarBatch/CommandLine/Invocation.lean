import GrammarBatch.CommandLine.Usage
import GrammarBatch.Path.Basic

/-!
# Reading the command line

* `Scope.walk`: reads the arguments of one scope from left to right;
* `Invocation.ofArguments`: what a whole command line asks for.

A value that stands in an argument of its own is looked at only when the next argument is settled, or at
the end. So an argument that is not known is reported before a bad value in front of it, while one that is
known is reported after.

The two arguments on verbosity may stand before the command or after it. Where they stand after it, those
before it do not count. They exclude each other only on the same side.
-/

namespace GrammarBatch.CommandLine

/-- What was read so far in one scope. -/
structure Scope.Progress where
  settings : List Setting := []
  /-- An argument that takes a value, and the value once it was met. -/
  pending : Option (Argument × Option Bytes) := none

/-- The form of an argument. -/
inductive Form where
  /-- The two dashes that end the arguments with names. -/
  | dashes
  /-- A long name, and the value after an equals sign. -/
  | long (name : Bytes) (value : Option Bytes)
  | letters (b : Bytes)
  | word
deriving DecidableEq

/-- The byte `-`. -/
def dash : UInt8 := 0x2D

/-- The byte `=`. -/
def equals : UInt8 := 0x3D

/-- The form of an argument. -/
def Form.of : Bytes → Form
  | a :: b :: rest =>
    if a ≠ dash then .word
    else if b ≠ dash then .letters (b :: rest)
    else if rest = [] then .dashes
    else
      let name := rest.takeWhile (· != equals)
      let after := rest.dropWhile (· != equals)
      .long name (if after = [] then none else some after.tail)
  | _ => .word

/-- The longest part in front that is text, and the bytes after it. -/
def textInFront (b : Bytes) : List Char × Bytes :=
  let n := ((List.range (b.length + 1)).reverse.find? fun n => (Utf8.decode? (b.take n)).isSome).getD 0
  (((Utf8.decode? (b.take n)).getD "").toList, b.drop n)

namespace Scope

/-- Refuses the command line. -/
def refuse {α : Type} (m : Misuse) : Except Stop α := .error (.misuse m)

namespace Progress

/-- Adds a setting of the argument, unless it was given before and may not be again. -/
def give (p : Progress) (a : Argument) (setting : Except ValueFault Setting) : Except Stop Progress :=
  if !a.isRepeatable && p.settings.any (·.argument == a) then refuse (.repeated a)
  else match setting with
    | .ok s => .ok { p with settings := p.settings ++ [s] }
    | .error f => refuse (.badValue a f)

/-- Settles the argument that is pending. -/
def settle (p : Progress) : Except Stop Progress :=
  match p.pending with
  | none => .ok p
  | some (a, none) => refuse (.badValue a .missing)
  | some (a, some value) => give { p with pending := none } a (Setting.ofValue a value)

/-- Settles what is pending, and adds a setting with its value. -/
def giveValue (p : Progress) (a : Argument) (value : Bytes) : Except Stop Progress := do
  let p ← p.settle
  p.give a (Setting.ofValue a value)

/-- Settles what is pending, and goes on to wait for a value. -/
def await (p : Progress) (a : Argument) : Except Stop Progress := do
  let p ← p.settle
  return { p with pending := some (a, none) }

/-- The argument that waits for its value. -/
def awaiting? (p : Progress) : Option Argument :=
  match p.pending with
  | some (a, none) => some a
  | _ => none

/-- Gives the value to the argument that waits for it. -/
def supply (p : Progress) (value : Bytes) : Progress :=
  { p with pending := p.pending.map fun (a, _) => (a, some value) }

end Progress

/-- Settles what is pending, and does what an argument without a value asks for. -/
def flag (s : Scope) (program : Option String) (p : Progress) (a : Argument) : Except Stop Progress := do
  let p ← p.settle
  match a with
  | .help => throw (.help (s.help program))
  | .version => throw .version
  | a =>
    match Setting.ofFlag? a with
    | some setting => p.give a (.ok setting)
    | none => refuse (.badValue a .missing)

/-- Reads an argument with a long name. -/
def readLong (s : Scope) (program : Option String) (p : Progress) (name : Bytes)
    (value : Option Bytes) : Except Stop Progress :=
  match (Utf8.decode? name).bind s.long? with
  | none => refuse (.unknownArgument ("--" ++ Utf8.decodeLossy name))
  | some a =>
    match a.takesValue, value with
    | true, some v => p.giveValue a v
    | true, none => p.await a
    | false, some v => refuse (.unwantedValue a (Utf8.decodeLossy v))
    | false, none => s.flag program p a

/-- Reads letters after a dash. What follows a letter that takes a value is the value, with or without an
equals sign in front. `suffix` are bytes that are no text. -/
def readLetters (s : Scope) (program : Option String) (p : Progress) (cs : List Char) (suffix : Bytes) :
    Except Stop Progress :=
  match cs with
  | [] =>
    if suffix = [] then .ok p else refuse (.unknownArgument ("-" ++ Utf8.decodeLossy suffix))
  | c :: cs =>
    match s.short? c with
    | none => refuse (.unknownArgument ("-" ++ String.singleton c))
    | some a =>
      if a.takesValue then
        match Utf8.encode (String.ofList cs) ++ suffix with
        | [] => p.await a
        | b :: rest => p.giveValue a (if b = equals then rest else b :: rest)
      else do
        let p ← s.flag program p a
        readLetters s program p cs suffix

/-- What is said about an argument that is neither named nor a value. -/
def stray (s : Scope) (afterDashes : Bool) (arg : Bytes) : Misuse :=
  let text := Utf8.decodeLossy arg
  if s = .top ∧ ¬ (afterDashes ∧ (Verb.ofBytes? arg).isSome) then .unknownVerb text
  else .unknownArgument text

/-- Reads the arguments of a scope. Before the command it ends at the verb, and gives the arguments
after it. -/
def walk (s : Scope) (program : Option String) (p : Progress) :
    List Bytes → Except Stop (Progress × Option (Verb × List Bytes))
  | [] => .ok (p, none)
  | arg :: rest =>
    if p.awaiting?.any (·.takesAnything) then walk s program (p.supply arg) rest
    else
      let verb := if p.awaiting?.isNone ∧ s = .top then Verb.ofBytes? arg else none
      match verb with
      | some v => .ok (p, some (v, rest))
      | none =>
        match Form.of arg with
        | .dashes =>
          match rest with
          | [] => .ok (p, none)
          | next :: _ => refuse (s.stray true next)
        | .long name value => do
          let p ← s.readLong program p name value
          walk s program p rest
        | .letters b => do
          let (cs, suffix) := textInFront b
          let p ← s.readLetters program p cs suffix
          walk s program p rest
        | .word =>
          if p.awaiting?.isSome then walk s program (p.supply arg) rest
          else refuse (s.stray false arg)

/-- The two arguments on verbosity, the one given first in front, if both were given. Of a repeated one the
last place counts. -/
def clash? (settings : List Setting) : Option Misuse :=
  match settings.reverse.find? fun s => s = .verbose ∨ s = .quiet with
  | some .quiet => if settings.contains .verbose then some (.conflict .verbose .quiet) else none
  | some .verbose => if settings.contains .quiet then some (.conflict .quiet .verbose) else none
  | _ => none

/-- Reads the arguments of a scope that has no commands. -/
def read (s : Scope) (program : Option String) (args : List Bytes) : Except Stop (List Setting) := do
  let (p, _) ← s.walk program {} args
  let p ← p.settle
  match clash? p.settings with
  | some m => refuse m
  | none => return p.settings

end Scope

/-- What the program shall do. -/
inductive Task where
  | build (config : Option Path) (overrides : Overrides)
  | scan (config : Option Path) (overrides : Overrides) (json : Bool)
deriving DecidableEq

namespace Task

/-- The configuration file that is named. -/
def config : Task → Option Path
  | build c _ => c
  | scan c _ _ => c

/-- The settings laid over the configuration. -/
def overrides : Task → Overrides
  | build _ o => o
  | scan _ o _ => o

end Task

/-- What a command line asks for. -/
structure Invocation where
  /-- How often more was asked to be told. -/
  verbosity : Nat
  quiet : Bool
  task : Task
deriving DecidableEq

namespace Invocation

/-- The greatest verbosity that is told apart. -/
def maxVerbosity : Nat := 255

/-- The verbosity that settings before the command and after it ask for. -/
def verbosityOf (outer inner : List Setting) : Nat :=
  let deciding := if inner.contains .verbose then inner else outer
  min maxVerbosity (deciding.count .verbose)

/-- The help that the words after the verb ask for. -/
def helpFor (program : Option String) : List Bytes → Stop
  | [] => .help (Scope.top.help program)
  | arg :: rest =>
    match Verb.ofBytes? arg with
    | none => .misuse (.unknownVerb (Utf8.decodeLossy arg))
    | some v =>
      match rest with
      | next :: _ => .misuse (.unknownVerb (Utf8.decodeLossy next))
      | [] =>
        match v with
        | .build => .help (Scope.build.help program)
        | .scan => .help (Scope.scan.help program)
        | .help => .help (helpOfHelp program)

/-- The name by which the program was called. -/
def calledName? (argv : List Bytes) : Option String := do
  let first ← argv.head?
  let name ← Path.fileName? ⟨first⟩
  Utf8.decode? name.bytes

/-- Reads the arguments after the verb. -/
def readTask (program : Option String) (v : Verb) (args : List Bytes) :
    Except Stop (List Setting × Task) := do
  match v with
  | .help => throw (helpFor program args)
  | .build =>
    let settings ← Scope.build.read program args
    return (settings, .build (Setting.configPath? settings) (Setting.overrides settings))
  | .scan =>
    let settings ← Scope.scan.read program args
    return (settings,
      .scan (Setting.configPath? settings) (Setting.overrides settings) (settings.contains .json))

/-- What the command line asks for. The first argument is the name of the program. -/
def ofArguments (argv : List Bytes) : Except Stop Invocation := do
  let program := calledName? argv
  let (p, command) ← Scope.top.walk program {} argv.tail
  match command with
  | none =>
    if p.settings.isEmpty then Scope.refuse .nothing else Scope.refuse (.missingVerb program)
  | some (v, args) =>
    let (inner, task) ← readTask program v args
    match Scope.clash? p.settings with
    | some m => Scope.refuse m
    | none =>
      return { verbosity := verbosityOf p.settings inner
               quiet := inner.contains .quiet || p.settings.contains .quiet
               task }

end Invocation

end GrammarBatch.CommandLine
