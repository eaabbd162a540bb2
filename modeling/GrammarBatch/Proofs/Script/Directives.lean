import GrammarBatch.Proofs.Text.Shown
import GrammarBatch.Script.Basic
import Mathlib

/-!
# Directives on lines of their own

Cargo reads what a build script prints line by line. While the sink works, each call prints a line and Cargo reads
the call back from it, as long as the path has no line break in it: a path is printed as it is shown, and what
stands behind a line break is a line of its own.

* `Directive.ofLine?`, `Directive.ofLine?_spelled`: how a line is read, and that a directive's own line reads as it;
* `Turn`, `Sink.run`: calls, and times when nothing can be written, in any order;
* `Sink.take_eq`, `Sink.run_eq`: what one turn does, and all of them;
* **`Sink.lines_run`**: the lines are the calls while the sink works, if and only if no path breaks its line;
* `BuildScript.stdout_compile`: what compiling prints is such a run.
-/

namespace GrammarBatch

/-! ## One line -/

namespace Directive

variable {name : String} {d : Directive}

/-- The path that is told. -/
def path : Directive → Path
  | rerunIfChanged p | setVariable _ p => p

/-- The directive for the text that is shown for its path. -/
def shown : Directive → Directive
  | rerunIfChanged p => rerunIfChanged (.ofString p.display)
  | setVariable other p => setVariable other (.ofString p.display)

/-- The line, without its end. -/
def spelled (d : Directive) : List Char := "cargo::".toList ++ d.text.toList

/-- What stands in front of the path in the line. -/
def opening : Directive → String
  | rerunIfChanged _ => "cargo::rerun-if-changed="
  | setVariable other _ => "cargo::rustc-env=" ++ other ++ "="

-- the equations that `rw [text]` and `rw [opening]` would make take their literals apart
theorem text_rerunIfChanged (p : Path) : (rerunIfChanged p).text = "rerun-if-changed=" ++ p.display := rfl

theorem text_setVariable (other : String) (p : Path) :
    (setVariable other p).text = "rustc-env=" ++ other ++ "=" ++ p.display := rfl

theorem opening_rerunIfChanged (p : Path) : (rerunIfChanged p).opening = "cargo::rerun-if-changed=" := rfl

theorem opening_setVariable (other : String) (p : Path) :
    (setVariable other p).opening = "cargo::rustc-env=" ++ other ++ "=" := rfl

/-- Whether the directive is one of a script that sets the variable of this name. -/
def Sets (name : String) : Directive → Prop
  | rerunIfChanged _ => True
  | setVariable other _ => other = name

/-- The directive that a line is, where the script sets the variable of this name. -/
def ofLine? (name : String) (line : List Char) : Option Directive :=
  let watched := ("cargo::rerun-if-changed=".toList.isPrefixOf? line).map fun rest =>
    rerunIfChanged (.ofString (String.ofList rest))
  let set := (("cargo::rustc-env=" ++ name ++ "=").toList.isPrefixOf? line).map fun rest =>
    setVariable name (.ofString (String.ofList rest))
  watched.or set

theorem toList_line (d : Directive) : d.line.toList = d.spelled ++ ['\n'] := by
  rw [line, String.toList_append, String.toList_append]
  rfl

theorem spelled_eq (d : Directive) : d.spelled = d.opening.toList ++ d.path.display.toList := by
  have hopening : "cargo::" ++ d.text = d.opening ++ d.path.display := by
    cases d with
    | rerunIfChanged p =>
      have hliteral : "cargo::" ++ "rerun-if-changed=" = "cargo::rerun-if-changed=" := by decide
      rw [text_rerunIfChanged, opening_rerunIfChanged, path, ← String.append_assoc, hliteral]
    | setVariable other p =>
      have hliteral : "cargo::" ++ "rustc-env=" = "cargo::rustc-env=" := by decide
      rw [text_setVariable, opening_setVariable, path, ← hliteral]
      simp only [String.append_assoc]
  calc d.spelled = ("cargo::" ++ d.text).toList := (String.toList_append ..).symm
    _ = d.opening.toList ++ d.path.display.toList := by rw [hopening, String.toList_append]

/-- **The line of a directive reads as the directive, with its path as it is shown.** -/
theorem ofLine?_spelled (h : d.Sets name) : ofLine? name d.spelled = some d.shown := by
  have hrest (front rest : List Char) : front.isPrefixOf? (front ++ rest) = some rest :=
    List.isPrefixOf?_eq_some_iff_append_eq.2 rfl
  rw [spelled_eq, ofLine?]
  cases d with
  | rerunIfChanged p =>
    rw [opening_rerunIfChanged, hrest, Option.map_some, String.ofList_toList]
    rfl
  | setVariable other p =>
    obtain rfl : other = name := h
    have hother (rest : List Char) :
        "cargo::rerun-if-changed=".toList.isPrefixOf? ("cargo::rustc-env=".toList ++ rest) = none := rfl
    have hwatched (rest : List Char) :
        "cargo::rerun-if-changed=".toList.isPrefixOf? (("cargo::rustc-env=" ++ other ++ "=").toList ++ rest) =
          none := by
      rw [String.toList_append, String.toList_append, List.append_assoc, List.append_assoc, hother]
    rw [opening_setVariable, hrest, hwatched, Option.map_some, String.ofList_toList]
    rfl

theorem shown_eq_self {t : String} (h : d.path = .ofString t) : d.shown = d := by
  have hdisplay : (Path.ofString t).display = t := Utf8.decodeLossy_encode t
  cases d with
  | rerunIfChanged p =>
    obtain rfl : p = .ofString t := h
    rw [shown, hdisplay]
  | setVariable other p =>
    obtain rfl : p = .ofString t := h
    rw [shown, hdisplay]

theorem count_spelled (hname : '\n' ∉ name.toList) (h : d.Sets name) :
    d.spelled.count '\n' = d.path.bytes.count 0x0A := by
  have hopening : d.opening.toList.count '\n' = 0 := by
    cases d with
    | rerunIfChanged p => exact List.count_eq_zero.2 (by decide : '\n' ∉ "cargo::rerun-if-changed=".toList)
    | setVariable other p =>
      obtain rfl : other = name := h
      rw [opening_setVariable, String.toList_append, String.toList_append, List.count_append, List.count_append,
        List.count_eq_zero.2 hname]
      decide
  rw [spelled_eq, List.count_append, hopening, Nat.zero_add, Path.display, Utf8.decodeLossy, String.toList_ofList]
  exact Utf8.count_lossy Utf8.sound_rest (by decide) d.path.bytes

end Directive

/-! ## Calls, and times when nothing can be written -/

/-- A call of a build script, or a change of the place that it writes to. -/
inductive Turn where
  | rerunIfChanged (path : Path)
  | addSourceRoot (path : Path)
  /-- From now on nothing can be written. -/
  | breaks
  /-- From now on all can be written. -/
  | works
deriving DecidableEq

namespace Turn

/-- The directive that is to be written in the turn, if it is a call. -/
def directive? (name : String) : Turn → Option Directive
  | rerunIfChanged p => some (.rerunIfChanged p)
  | addSourceRoot p => some (.setVariable name p)
  | breaks | works => none

/-- Whether nothing can be written after the turn. -/
def leaves (broken : Bool) : Turn → Bool
  | breaks => true
  | works => false
  | rerunIfChanged _ | addSourceRoot _ => broken

/-- The turns, each with whether nothing can be written in it. -/
def moments : Bool → List Turn → List (Turn × Bool)
  | _, [] => []
  | broken, t :: turns => (t, broken) :: moments (t.leaves broken) turns

/-- The directive that is written in a turn. -/
def heard? (name : String) (moment : Turn × Bool) : Option Directive :=
  if moment.2 then none else moment.1.directive? name

/-- The directive that is lost in a turn. -/
def lost? (name : String) (moment : Turn × Bool) : Option Directive :=
  if moment.2 then moment.1.directive? name else none

/-- The calls that are written, in order. -/
def heard (name : String) (broken : Bool) (turns : List Turn) : List Directive :=
  (moments broken turns).filterMap (heard? name)

/-- The turns without the calls that are lost. -/
def kept (name : String) (broken : Bool) (turns : List Turn) : List Turn :=
  ((moments broken turns).filter fun moment => (lost? name moment).isNone).map Prod.fst

theorem sets_of_directive? {name : String} {t : Turn} {d : Directive} (h : t.directive? name = some d) :
    d.Sets name := by
  cases t with
  | rerunIfChanged p =>
    cases h
    trivial
  | addSourceRoot p =>
    cases h
    rfl
  | breaks | works => cases h

theorem sets_of_mem_heard {name : String} {broken : Bool} {turns : List Turn} {d : Directive}
    (h : d ∈ heard name broken turns) : d.Sets name := by
  obtain ⟨⟨t, broken⟩, -, hd⟩ := List.mem_filterMap.1 h
  cases broken with
  | false => exact sets_of_directive? hd
  | true => cases hd

end Turn

namespace Sink

open Turn (moments heard heard? lost? kept)

/-- Takes a turn: the sink after it, and what is logged. -/
def take (name : String) (s : Sink) : Turn → Sink × List Log.Record
  | .breaks => ({ s with broken := true }, [])
  | .works => ({ s with broken := false }, [])
  | .rerunIfChanged p => s.write (.rerunIfChanged p)
  | .addSourceRoot p => s.write (.setVariable name p)

/-- Takes turns: the sink after them, and what is logged in each. -/
def run (name : String) : Sink → List Turn → Sink × List (List Log.Record)
  | s, [] => (s, [])
  | s, t :: turns =>
    let (after, records) := s.take name t
    let (last, rest) := after.run name turns
    (last, records :: rest)

/-- The warning for a directive that is lost. -/
def warning (d : Directive) : Log.Record :=
  ⟨.warn, "failed to write cargo directive '" ++ d.text ++ "': sink closed"⟩

/-- The text with the lines of directives behind it. -/
def withLines (written : String) (ds : List Directive) : String :=
  ds.foldl (fun text d => text ++ d.line) written

theorem toList_withLines (written : String) (ds : List Directive) :
    (withLines written ds).toList = written.toList ++ ds.flatMap fun d => d.spelled ++ ['\n'] := by
  induction ds generalizing written with
  | nil => exact (List.append_nil _).symm
  | cons d ds ih =>
    rw [withLines, List.foldl_cons, ← withLines, ih, String.toList_append, Directive.toList_line, List.flatMap_cons,
      List.append_assoc]

variable {name : String}

/-- **What one turn does**: it writes what is heard and logs what is lost. -/
theorem take_eq (s : Sink) (t : Turn) : s.take name t =
    (⟨withLines s.written (heard? name (t, s.broken)).toList, t.leaves s.broken⟩,
      ((lost? name (t, s.broken)).map warning).toList) := by
  obtain ⟨written, broken⟩ := s
  cases t with
  | breaks | works => cases broken <;> rfl
  | rerunIfChanged p | addSourceRoot p => cases broken <;> rfl

theorem take_of_lost {s : Sink} {t : Turn} (h : lost? name (t, s.broken) ≠ none) : (s.take name t).1 = s := by
  obtain ⟨written, broken⟩ := s
  cases broken with
  | false => exact absurd rfl h
  | true =>
    cases t with
    | breaks | works => exact absurd rfl h
    | rerunIfChanged p | addSourceRoot p => rfl

/-- **What turns do**, by the state in which each is taken. -/
theorem run_eq (s : Sink) (turns : List Turn) : s.run name turns =
    (⟨withLines s.written (heard name s.broken turns), turns.foldl Turn.leaves s.broken⟩,
      (moments s.broken turns).map fun moment => ((lost? name moment).map warning).toList) := by
  induction turns generalizing s with
  | nil => rfl
  | cons t turns ih =>
    have hlines (d? : Option Directive) (ds : List Directive) :
        withLines (withLines s.written d?.toList) ds = withLines s.written (d?.toList ++ ds) :=
      (List.foldl_append ..).symm
    rw [run, take_eq]
    dsimp only
    rw [ih, heard, heard, moments, List.filterMap_cons, List.map_cons, List.foldl_cons, hlines]
    cases heard? name (t, s.broken) <;> rfl

theorem run_kept (s : Sink) (turns : List Turn) :
    (s.run name (kept name s.broken turns)).1 = (s.run name turns).1 := by
  induction turns generalizing s with
  | nil => rfl
  | cons t turns ih =>
    have hrun (turns : List Turn) : (s.run name (t :: turns)).1 = ((s.take name t).1.run name turns).1 := rfl
    have hbroken : (s.take name t).1.broken = t.leaves s.broken := by rw [take_eq]
    rw [hrun, ← ih, hbroken, kept, moments, List.filter_cons]
    split
    · rw [List.map_cons, hrun]
      rfl
    · rename_i hlost
      have hself : (s.take name t).1 = s := take_of_lost (by simpa using hlost)
      rw [← hbroken, hself]
      rfl

/-! ## The lines -/

theorem splitOn_lines {lines : List (List Char)} (h : ∀ line ∈ lines, '\n' ∉ line) :
    (lines.flatMap fun line => line ++ ['\n']).splitOn '\n' = lines ++ [[]] := by
  induction lines with
  | nil => rfl
  | cons line lines ih =>
    rw [List.flatMap_cons, List.append_assoc, List.singleton_append,
      List.splitOn_append_cons_self_of_not_mem (h line List.mem_cons_self),
      ih fun x hx => h x (List.mem_cons_of_mem line hx), List.cons_append]

theorem count_withLines (hname : '\n' ∉ name.toList) {ds : List Directive} (h : ∀ d ∈ ds, d.Sets name) :
    (withLines "" ds).toList.count '\n' = ds.length + (ds.map fun d => d.path.bytes.count 0x0A).sum := by
  rw [toList_withLines]
  change (ds.flatMap fun d => d.spelled ++ ['\n']).count '\n' = _
  induction ds with
  | nil => rfl
  | cons d ds ih =>
    rw [List.flatMap_cons, List.count_append, List.count_append, ih fun x hx => h x (List.mem_cons_of_mem d hx),
      Directive.count_spelled hname (h d List.mem_cons_self), List.length_cons, List.map_cons, List.sum_cons,
      List.count_singleton_self]
    omega

/-- **While the sink works, each call of a build script is a line, if and only if no path has a line break in it. Then
the lines are the calls in order, and each reads as its call, with the path as it is shown. A call that cannot be
written is told in one warning, and leaves all that is written as if it had not been made.** -/
theorem lines_run (hname : '\n' ∉ name.toList) (turns : List Turn) :
    ((run name {} turns).1.written.toList.count '\n' = (heard name false turns).length ↔
      ∀ d ∈ heard name false turns, 0x0A ∉ d.path.bytes) ∧
    ((∀ d ∈ heard name false turns, 0x0A ∉ d.path.bytes) →
      ∃ lines, (run name {} turns).1.written.toList.splitOn '\n' = lines ++ [[]] ∧
        (∀ line ∈ lines, "cargo::".toList <+: line) ∧
        lines.map (Directive.ofLine? name) = (heard name false turns).map fun d => some d.shown) ∧
    (∀ d ∈ heard name false turns, ∀ t, d.path = .ofString t → d.shown = d) ∧
    (run name {} turns).2 = (moments false turns).map (fun moment => ((lost? name moment).map warning).toList) ∧
    (run name {} (kept name false turns)).1 = (run name {} turns).1 := by
  have hwritten : (run name {} turns).1.written = withLines "" (heard name false turns) := by rw [run_eq]
  refine ⟨?_, fun hbreaks => ?_, fun d _ t => Directive.shown_eq_self, by rw [run_eq], run_kept {} turns⟩
  · rw [hwritten, count_withLines hname fun d => Turn.sets_of_mem_heard, Nat.add_eq_left,
      List.sum_eq_zero_iff_forall_eq_nat, List.forall_mem_map]
    simp only [List.count_eq_zero]
  · have hline : ∀ line ∈ (heard name false turns).map Directive.spelled, '\n' ∉ line := by
      refine List.forall_mem_map.2 fun d hd => List.count_eq_zero.1 ?_
      rw [Directive.count_spelled hname (Turn.sets_of_mem_heard hd), List.count_eq_zero]
      exact hbreaks d hd
    refine ⟨(heard name false turns).map Directive.spelled, ?_, ?_, ?_⟩
    · rw [hwritten, toList_withLines, ← splitOn_lines hline, List.flatMap_map]
      rfl
    · exact List.forall_mem_map.2 fun d _ => List.prefix_append ..
    · rw [List.map_map]
      exact List.map_congr_left fun d hd => Directive.ofLine?_spelled (Turn.sets_of_mem_heard hd)

/-- A call is lost between two others. -/
def mended : List Turn :=
  [.rerunIfChanged (.ofString "/work/grammars"), .breaks, .addSourceRoot (.ofString "/work/lost"), .works,
    .addSourceRoot (.ofString "/work/out")]

theorem lines_run_mended :
    (∃ lines, (run "GRAMMARS" {} mended).1.written.toList.splitOn '\n' = lines ++ [[]] ∧
      lines.map (Directive.ofLine? "GRAMMARS") =
        [some (.rerunIfChanged (.ofString "/work/grammars")),
          some (.setVariable "GRAMMARS" (.ofString "/work/out"))]) ∧
    (run "GRAMMARS" {} mended).2 =
      [[], [], [warning (.setVariable "GRAMMARS" (.ofString "/work/lost"))], [], []] := by
  have hheard : heard "GRAMMARS" false mended =
      [.rerunIfChanged (.ofString "/work/grammars"), .setVariable "GRAMMARS" (.ofString "/work/out")] := rfl
  obtain ⟨-, hlines, hshown, hrecords, -⟩ := lines_run (by decide : '\n' ∉ "GRAMMARS".toList) mended
  rw [hheard] at hlines hshown
  constructor
  · obtain ⟨lines, hsplit, -, hread⟩ := hlines (by decide)
    refine ⟨lines, hsplit, hread.trans ?_⟩
    rw [List.map_cons, hshown _ (by simp) _ rfl, List.map_singleton, hshown _ (by simp) _ rfl]
  · exact hrecords

/-- A path with a line break in it. -/
def forged : Path := .ofString "src\ncargo::rustc-env=GRAMMARS=/elsewhere"

/-- One call is read as two. -/
theorem lines_run_forged :
    heard "GRAMMARS" false [.rerunIfChanged forged] = [.rerunIfChanged forged] ∧
    ((run "GRAMMARS" {} [.rerunIfChanged forged]).1.written.toList.splitOn '\n').map (Directive.ofLine? "GRAMMARS") =
      [some (.rerunIfChanged (.ofString "src")), some (.setVariable "GRAMMARS" (.ofString "/elsewhere")), none] := by
  exact ⟨rfl, by decide +kernel⟩

end Sink

/-! ## What compiling prints -/

/-- Compiling takes the turns of one run that never breaks, where Cargo sets its variables. -/
theorem BuildScript.stdout_compile (b : BuildScript) (env : Environment) {assigned : List (String × Bytes)}
    (fs : FileSystem) {manifest out : Bytes} (hmanifest : assigned.lookup manifestVariable = some manifest)
    (hout : assigned.lookup outVariable = some out) :
    (b.compile env assigned fs).stdout =
      (Sink.run b.outputVariable {} (.rerunIfChanged (b.configFor ⟨manifest⟩ ⟨out⟩).sourceDir ::
        (b.compile env assigned fs).course.registered.map .addSourceRoot)).1.written := by
  have hroots (s : Sink) (roots : List Path) : (s.run b.outputVariable (roots.map .addSourceRoot)).1 =
      (roots.map (.setVariable b.outputVariable)).foldl (fun s d => (s.write d).1) s := by
    induction roots generalizing s with
    | nil => rfl
    | cons p roots ih => exact ih (s.write (.setVariable b.outputVariable p)).1
  have hrun (p : Path) (roots : List Path) :
      (Sink.run b.outputVariable {} (.rerunIfChanged p :: roots.map .addSourceRoot)).1 =
        (Directive.rerunIfChanged p :: roots.map (.setVariable b.outputVariable)).foldl
          (fun s d => (s.write d).1) {} :=
    hroots (Sink.write {} (.rerunIfChanged p)).1 roots
  rw [hrun, compile]
  simp only [hmanifest, hout]
  rfl

end GrammarBatch
