/-!
# Log records

A `Log.Record` is a line told while a pass runs, at one of five levels. The verbosity asked for decides
which levels are shown (`Log.Limit`).
-/

namespace GrammarBatch.Log

/-- How much a record matters. -/
inductive Level where
  | error
  | warn
  | info
  | debug
  | trace
deriving DecidableEq, Repr

/-- The name of the level. -/
def Level.name : Level → String
  | error => "error"
  | warn => "warn"
  | info => "info"
  | debug => "debug"
  | trace => "trace"

/-- The position of the level, the one that matters most first. -/
def Level.rank : Level → Nat
  | error => 1
  | warn => 2
  | info => 3
  | debug => 4
  | trace => 5

/-- The levels that are shown: all down to the given one, or none. -/
abbrev Limit := Option Level

/-- Whether records of the level are shown. -/
def Limit.shows (limit : Limit) (level : Level) : Bool :=
  match limit with
  | none => false
  | some l => level.rank ≤ l.rank

/-- The limit of a name, where `off` shows nothing. -/
def Limit.name : Limit → String
  | none => "off"
  | some l => l.name

/-- The limit for a count of requests to tell more, and a request for errors alone. -/
def Limit.ofVerbosity (count : Nat) (quiet : Bool) : Limit :=
  if quiet then some .error
  else match count with
    | 0 => some .warn
    | 1 => some .info
    | 2 => some .debug
    | _ => some .trace

/-- A line that is told. -/
structure Record where
  level : Level
  message : String
deriving DecidableEq, Repr

end GrammarBatch.Log
