import GrammarBatch.Pass.Basic
import GrammarBatch.Script.Directive
import GrammarBatch.Tool.Command

/-!
# Compiling grammars from a build script

A build script describes what it wants by calls of setters, in any order.

* `Setter`, `BuildScript.ofSetters`: the setters, and the script that they describe;
* `BuildScript.configFor`: the configuration for the directories that Cargo gives;
* `BuildScript.compile`: the pass, between the directives that are printed.

Directories that are given are read from the directory of the manifest. A directory that is not given is
`src/grammars` there, or `grammars` in the directory for output.
-/

namespace GrammarBatch

/-- What a build script wants. -/
structure BuildScript where
  sourceDir : Option Path := none
  outputDir : Option Path := none
  libDir : Option Path := none
  includes : PatternSet := ∅
  excludes : PatternSet := ∅
  /-- Whether version control data and editor backups are unwanted too. -/
  defaultExcludes : Bool := true
  options : ToolOptions := {}
  tool : ToolCommand := {}
  outputVariable : String := Directive.defaultVariable
deriving DecidableEq

/-- A call of a setter. -/
inductive Setter where
  | sourceDir (p : Path)
  | outputDir (p : Path)
  | libDir (p : Path)
  | includePattern (s : String)
  | excludePattern (s : String)
  | defaultExcludes (b : Bool)
  | options (o : ToolOptions)
  | tool (c : ToolCommand)
  | outputVariable (name : String)
deriving DecidableEq

namespace BuildScript

/-- The script after a setter. -/
def set (b : BuildScript) : Setter → BuildScript
  | .sourceDir p => { b with sourceDir := some p }
  | .outputDir p => { b with outputDir := some p }
  | .libDir p => { b with libDir := some p }
  | .includePattern s => { b with includes := b.includes.insert s }
  | .excludePattern s => { b with excludes := b.excludes.insert s }
  | .defaultExcludes on => { b with defaultExcludes := on }
  | .options o => { b with options := o }
  | .tool c => { b with tool := c }
  | .outputVariable name => { b with outputVariable := name }

/-- The script that setters describe. -/
def ofSetters (setters : List Setter) : BuildScript := setters.foldl set {}

/-- The configuration for a manifest and an output directory. -/
def configFor (b : BuildScript) (manifest out : Path) : BuildConfig where
  sourceDir :=
    match b.sourceDir with
    | some p => manifest.join p
    | none => (manifest.join (.ofString "src")).join (.ofString "grammars")
  outputDir :=
    match b.outputDir with
    | some p => manifest.join p
    | none => out.join (.ofString "grammars")
  libDir := b.libDir.map manifest.join
  includes := b.includes
  excludes := b.excludes
  defaultExcludes := b.defaultExcludes
  options := b.options
  tool := b.tool

/-- What compiling from a build script comes to. -/
structure Compilation where
  result : Except BuildError Outcome
  stdout : String
  course : Course ToolCall

/-- The variable with the directory of the manifest. -/
def manifestVariable : String := "CARGO_MANIFEST_DIR"

/-- The variable with the directory for output. -/
def outVariable : String := "OUT_DIR"

/-- Compiles the grammars. `assigned` are the variables that Cargo sets. -/
def compile (b : BuildScript) (env : Environment) (assigned : List (String × Bytes)) (fs : FileSystem) :
    Compilation :=
  match assigned.lookup manifestVariable, assigned.lookup outVariable with
  | none, _ => ⟨.error (.unsetVariable manifestVariable), "", .start fs⟩
  | _, none => ⟨.error (.unsetVariable outVariable), "", .start fs⟩
  | some manifest, some out =>
    let config := b.configFor ⟨manifest⟩ ⟨out⟩
    let (result, course) := (Pass.run env (commandToolchain env config.tool) config).run (.start fs)
    let sink : Sink := ((Directive.rerunIfChanged config.sourceDir ::
      course.registered.map (.setVariable b.outputVariable)).foldl (fun s d => (s.write d).1) {})
    ⟨result, sink.written, course⟩

end BuildScript

end GrammarBatch
