import GrammarBatch.Discovery.Scan
import GrammarBatch.Tool.Batch
import GrammarBatch.Tool.Diagnostic
import GrammarBatch.Tool.Error
import GrammarBatch.Tool.Lookup

/-!
# Jobs

A `Job` changes the file system and leaves a record of what happened: log records, the steps of a pass,
and whatever the tool notes about its own doings.

* `Step`, `Event`, `Course`: a step, anything that happens, and how things stand;
* `Toolchain`: what a pass needs of a tool. It makes an engine ready, once for a pass, and the engine
  compiles batches.
-/

namespace GrammarBatch

/-- A step of a pass. -/
inductive Step where
  | resolve
  | makeOutput (directory : Path)
  | prepare (binding : Binding)
  | inspect (directory : Path)
  | discover (directory : Path)
  | compile (batch : Batch)
  | register (directory : Path)
deriving DecidableEq

/-- Something that happens; `τ` is what a tool notes. -/
inductive Event (τ : Type) where
  | log (r : Log.Record)
  | step (s : Step)
  | tool (t : τ)

namespace Event

variable {τ : Type}

/-- The log record, if it is one. -/
def log? : Event τ → Option Log.Record
  | log r => some r
  | _ => none

/-- The step, if it is one. -/
def step? : Event τ → Option Step
  | step s => some s
  | _ => none

/-- The note of the tool, if it is one. -/
def tool? : Event τ → Option τ
  | tool t => some t
  | _ => none

/-- The directory that is registered, if one is. -/
def registered? : Event τ → Option Path
  | step (.register p) => some p
  | _ => none

end Event

/-- How things stand while a job runs. -/
structure Course (τ : Type) where
  files : FileSystem
  /-- What happened, in order. -/
  events : List (Event τ)

namespace Course

variable {τ : Type}

/-- Nothing has happened yet. -/
def start (fs : FileSystem) : Course τ := ⟨fs, []⟩

/-- The log records that the limit shows. -/
def logs (c : Course τ) (limit : Log.Limit) : List Log.Record :=
  (c.events.filterMap Event.log?).filter fun r => limit.shows r.level

/-- The steps taken. -/
def steps (c : Course τ) : List Step := c.events.filterMap Event.step?

/-- The notes of the tool. -/
def notes (c : Course τ) : List τ := c.events.filterMap Event.tool?

/-- The directories registered. -/
def registered (c : Course τ) : List Path := c.events.filterMap Event.registered?

end Course

/-- Something to be done, in the course of which `τ` is what a tool notes. -/
abbrev Job (τ α : Type) := StateM (Course τ) α

namespace Job

variable {τ : Type}

/-- Records that something happens. -/
def emit (e : Event τ) : Job τ Unit := modify fun c => { c with events := c.events ++ [e] }

/-- Logs a message. -/
def log (level : Log.Level) (message : String) : Job τ Unit := emit (.log ⟨level, message⟩)

/-- Takes a step. -/
def step (s : Step) : Job τ Unit := emit (.step s)

/-- The file system as it stands. -/
def files : Job τ FileSystem := do return (← get).files

/-- Changes the file system, and gives what the change tells. -/
def change {α : Type} (f : FileSystem → FileSystem × α) : Job τ α := do
  let c ← get
  let (fs, a) := f c.files
  set { c with files := fs }
  return a

/-- Leaves a job to the tool, which sees the file system and nothing of what happened before. What it records
is kept, but for steps, which only a pass takes. -/
def delegate {α : Type} (j : Job τ α) : Job τ α := do
  let c ← get
  let (a, done) := j.run (.start c.files)
  set { files := done.files, events := c.events ++ done.events.filter (·.step?.isNone) : Course τ }
  return a

end Job

/-- What a pass needs of a tool: `ε` is a tool that is ready, and `τ` is what it notes. -/
structure Toolchain (τ ε : Type) where
  prepare : Binding → Job τ (Except ToolError ε)
  compile : ε → Batch → Job τ (Except ToolError Tally)

end GrammarBatch
