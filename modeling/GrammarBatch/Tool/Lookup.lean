import GrammarBatch.Files.Resolve
import GrammarBatch.Tool.Interpreter

/-!
# Finding and starting programs

* `Environment`: the directory a program is started from, and where programs are looked for;
* `Environment.withValues`: the environment where some variables have other values;
* `Environment.findProgram`: the file that a program's name stands for;
* `Environment.start`: starts a file in a directory, and tells what runs then and what it does.

A name of one part is looked for in the directories of the search path, the first of which wins; one that
begins with the part `~` lies in the home directory. A name with more parts is a path, read from the
current directory, or from the directories of the search path where the current one has no path any more.
Both the search and the name may be relative, and a relative path is read anew when the program is started,
from the directory it runs in.

A script is run by its interpreter, which gets the path of the script in front of the arguments. An
interpreter may be a script itself, up to a bound. What is known of a script as a program is what happens
where its interpreter can run.

An entry of the search path that is longer than any path is passed over when a program is started, and the
directory of the program takes its place, unless no entry follows.
-/

namespace GrammarBatch

/-- What a program is started with. -/
structure Environment where
  current : Place
  /-- The directories in which programs are looked for, in order. -/
  searchPath : List Path
  /-- The directory that `~` stands for. -/
  home : Path := ⟨[]⟩
deriving DecidableEq

/-- A run of a program. -/
structure ToolCall where
  program : Place
  directory : Place
  args : List Bytes
deriving DecidableEq

/-- The byte `:`. -/
def colon : UInt8 := 0x3A

/-- The byte `~`. -/
def tilde : UInt8 := 0x7E

/-- The directories that a search path lists. -/
def searchPathOf (b : Bytes) : List Path := (b.splitOn colon).map Path.mk

namespace FileSystem

/-- Whether the path leads to a file that may be run. -/
def isProgram (fs : FileSystem) (current : Place) (p : Path) : Bool :=
  match fs.find current p true with
  | .ok (_, .file f) => f.executable
  | _ => false

/-- The number of files that lead from one interpreter to the next, the program at the end included. -/
def maxChain : Nat := 6

/-- The length that every argument is below. -/
def argumentBound : Nat := 131072

/-- The room that all arguments together have. -/
def argumentRoom : Nat := 2097152

/-- The room that an argument takes: its bytes, a zero after them, and where they lie. -/
def roomOf (arg : Bytes) : Nat := arg.length + 9

/-- Whether a program can be given the arguments. Its own path is one of them. -/
def canTake (p : Path) (args : List Bytes) : Bool :=
  args.all (·.length < argumentBound) && ((p.bytes :: args).map roomOf).foldl (· + ·) 0 ≤ argumentRoom

/-- What runs when the path is run from a directory, by at most `chain` files. An interpreter without a name
stands for the directory itself. -/
def executeWithin (fs : FileSystem) (directory : Place) (chain : Nat) (p : Path) (args : List Bytes) :
    Except SystemError (ToolCall × Behaviour) :=
  match fs.find directory p true with
  | .error e => .error e
  | .ok (program, .file f) =>
    if !f.executable then .error .permissionDenied
    else if !canTake p args then .error .argumentsTooLong
    else
      match chain with
      | 0 => .error .tooManyLinks
      | chain + 1 =>
        let known := f.behaviour.map fun b => (({ program, directory, args } : ToolCall), b)
        match Interpreter.ofScript? f.content with
        | none =>
          match known with
          | some run => .ok run
          | none => .error .notAProgram
        | some i =>
          if i.program.bytes = [] then .error .permissionDenied
          else
            match executeWithin fs directory chain i.program (i.args ++ p.bytes :: args) with
            | .ok run => .ok (known.getD run)
            | .error e => .error e
  | .ok _ => .error .permissionDenied

/-- What runs when the path is run from a directory. -/
def execute (fs : FileSystem) (directory : Place) (p : Path) (args : List Bytes) :
    Except SystemError (ToolCall × Behaviour) :=
  fs.executeWithin directory maxChain p args

/-- Whether another path is tried after the failure. -/
def givesWay (e : SystemError) : Bool := e = .permissionDenied || e = .notFound || e = .notADirectory

/-- Runs the first of the paths that can be run. A path that is missing or may not be run gives way to the
next one. In the end the last such failure is reported, unless some path may not be run. -/
def executeFirst (fs : FileSystem) (directory : Place) (args : List Bytes) (failure : SystemError) :
    List Path → Except SystemError (ToolCall × Behaviour)
  | [] => .error failure
  | p :: rest =>
    match fs.execute directory p args with
    | .ok run => .ok run
    | .error e =>
      if givesWay e then
        executeFirst fs directory args (if failure = .permissionDenied then failure else e) rest
      else .error e

end FileSystem

namespace Environment

/-- The environment where the variables of these names have these values. A home that is empty counts as
missing. -/
def withValues (env : Environment) (values : List (String × Bytes)) : Environment where
  current := env.current
  searchPath := ((values.lookup "PATH").map searchPathOf).getD env.searchPath
  home := (((values.lookup "HOME").filter (· ≠ [])).map Path.mk).getD env.home

/-- The directory with a first part `~` read as the home directory. -/
def expandHome (env : Environment) (p : Path) : Path :=
  match p.components with
  | .name n :: rest =>
    if n.bytes = [tilde] then rest.foldl (fun q c => q.join ⟨c.bytes⟩) env.home else p
  | _ => p

/-- The files that the search path gives for the name of a program. -/
def searched (env : Environment) (p : Path) : List Path :=
  env.searchPath.map fun d => (env.expandHome d).join p

/-- The length that every entry of the search path that is looked at on starting is below. -/
def entryBound : Nat := 4096

/-- The path that is run for the name of a program in an entry of the search path. An entry that is not
empty gets a slash, also where it ends in one. -/
def attempt (program entry : Path) : Path :=
  if entry.bytes = [] then program else ⟨entry.bytes ++ slash :: program.bytes⟩

/-- The paths that are run for the name of a program, in order. -/
def attempts (program : Path) : List Path → List Path
  | [] => []
  | entry :: rest =>
    if entry.bytes.length < entryBound then attempt program entry :: attempts program rest
    else if rest = [] then []
    else program :: attempts program rest

/-- The files that the name of a program may stand for. -/
def candidates (env : Environment) (fs : FileSystem) (program : String) : List Path :=
  let p := Path.ofString program
  if program = "" then []
  else
    match fs.pathOf? env.current with
    | some current => if 1 < p.components.length then [current.join p] else env.searched p
    | none => env.searched p

/-- The file that the name of a program stands for. -/
def findProgram (env : Environment) (fs : FileSystem) (program : String) : Option Path :=
  (env.candidates fs program).find? (fs.isProgram env.current)

/-- Starts a program in a directory: what runs, and what it does. -/
def start (env : Environment) (fs : FileSystem) (program : Path) (args : List Bytes) (directory : Path) :
    Except SystemError (ToolCall × Behaviour) :=
  if (program.bytes :: directory.bytes :: args).any (·.contains 0) then .error .zeroInData
  else
    match fs.find env.current directory true with
    | .ok (d, .directory) =>
      if program.bytes.contains slash then fs.execute d program args
      else fs.executeFirst d args .notFound (attempts program env.searchPath)
    | .ok _ => .error .notADirectory
    | .error e => .error e

end Environment

end GrammarBatch
