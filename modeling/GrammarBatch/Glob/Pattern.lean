import GrammarBatch.Glob.Wildcard

/-!
# Path patterns

A pattern is matched segment by segment against a whole relative path. Both `/` and `\` separate
segments, empty segments do not count, and a path or pattern that begins with a separator is rooted.

* `Pattern.Segment`: `**` takes any number of path segments, every other segment exactly one;
* `Pattern.parse`: the pattern of a text, which never fails;
* `Pattern.acceptsSegments`: what it means that segments match a path;
* `Pattern.accepts`: whether a path matches.

To try every number of segments for each `**` would take too long. Instead the answers for all ends of the
path are worked out for the last segment of the pattern first, and from them those for the segment before
it; `headD_answers` says that this comes to the same.

A pattern that ends in a separator stands for everything below: `sub/` is `sub/**`.
-/

namespace GrammarBatch

/-- The characters that separate the segments of patterns and of the paths they match. -/
def isSeparator (c : Char) : Bool := c == '/' || c == '\\'

/-- The segments of a text, without the empty ones. -/
def segmentsOf (cs : List Char) : List (List Char) :=
  (cs.splitOnP isSeparator).filter (!·.isEmpty)

/-- Whether a text begins with a separator. -/
def isRooted (cs : List Char) : Bool := cs.head?.any isSeparator

/-- Whether some end of the list, the list itself and the empty one among them, passes the test. -/
def anyTail {α : Type} (test : List α → Bool) : List α → Bool
  | [] => test []
  | a :: l => test (a :: l) || anyTail test l

namespace Pattern

/-- One segment of a pattern. -/
inductive Segment where
  /-- The segment `**`: any number of whole path segments. -/
  | anyDepth
  /-- A segment without wildcards: the path segment of that text. -/
  | literal (text : List Char)
  /-- A segment with wildcards: the path segments that the glob matches. -/
  | wildcard (glob : List Char)
deriving DecidableEq, Repr

/-- The segment that a text spells. -/
def Segment.parse (text : List Char) : Segment :=
  if text = ['*', '*'] then .anyDepth
  else if text.any (fun c => c == '*' || c == '?') then .wildcard text
  else .literal text

/-- Whether the segment takes one path segment of this name. -/
def Segment.accepts : Segment → List Char → Bool
  | .anyDepth, _ => true
  | .literal text, name => text == name
  | .wildcard glob, name => Wildcard.accepts glob name

/-- The segments with each run of `**` reduced to one. -/
def collapse : List Segment → List Segment
  | [] => []
  | s :: rest =>
    match s, collapse rest with
    | .anyDepth, .anyDepth :: rest' => .anyDepth :: rest'
    | s, rest' => s :: rest'

/-- The segments followed by `**`, unless they end so. -/
def openEnded (segments : List Segment) : List Segment :=
  if segments.getLast? = some .anyDepth then segments else segments ++ [.anyDepth]

/-- Whether the segments match the path segments, in order and to the end. -/
def acceptsSegments : List Segment → List (List Char) → Bool
  | [], path => path.isEmpty
  | .anyDepth :: rest, path => anyTail (acceptsSegments rest) path
  | _ :: _, [] => false
  | segment :: rest, name :: path => segment.accepts name && acceptsSegments rest path

/-- Whether an answer here or further on is yes, for each place of the list. -/
def anyAfter : List Bool → List Bool
  | [] => []
  | b :: rest =>
    let after := anyAfter rest
    (b || after.headD false) :: after

/-- The answers for the path and each of its ends, the empty one last. -/
def answers : List Segment → List (List Char) → List Bool
  | [], path => path.map (fun _ => false) ++ [true]
  | .anyDepth :: rest, path => anyAfter (answers rest path)
  | segment :: rest, path =>
    path.zipWith (fun name b => segment.accepts name && b) (answers rest path).tail ++ [false]

theorem answers_nil (segments : List Segment) : answers segments [] = [acceptsSegments segments []] := by
  induction segments with
  | nil => rfl
  | cons s rest ih => cases s <;> simp [answers, acceptsSegments, anyTail, anyAfter, ih]

theorem headD_anyAfter_answers {segments : List Segment}
    (h : ∀ name path, answers segments (name :: path) =
      acceptsSegments segments (name :: path) :: answers segments path) (path : List (List Char)) :
    (anyAfter (answers segments path)).headD false = anyTail (acceptsSegments segments) path := by
  induction path with
  | nil => simp [answers_nil, anyAfter, anyTail]
  | cons name path ih =>
    rw [h, anyTail, ← ih]
    rfl

theorem answers_cons (segments : List Segment) (name : List Char) (path : List (List Char)) :
    answers segments (name :: path) =
      acceptsSegments segments (name :: path) :: answers segments path := by
  induction segments generalizing name path with
  | nil => rfl
  | cons s rest ih =>
    cases s with
    | anyDepth =>
      rw [answers, answers, acceptsSegments, anyTail, ← headD_anyAfter_answers ih, ih]
      rfl
    | literal text =>
      simp only [answers, acceptsSegments, ih, List.tail_cons]
      cases path <;> simp [answers_nil, ih]
    | wildcard glob =>
      simp only [answers, acceptsSegments, ih, List.tail_cons]
      cases path <;> simp [answers_nil, ih]

/-- The first of the answers is the one for the whole path. -/
theorem headD_answers (segments : List Segment) (path : List (List Char)) :
    (answers segments path).headD false = acceptsSegments segments path := by
  cases path with
  | nil => rw [answers_nil, List.headD_cons]
  | cons name path => rw [answers_cons, List.headD_cons]

end Pattern

/-- A pattern, ready to be matched. -/
structure Pattern where
  source : String
  /-- Whether only rooted paths can match. -/
  rooted : Bool
  /-- The segments, without two neighbouring `**`. -/
  segments : List Pattern.Segment
deriving DecidableEq, Repr

namespace Pattern

/-- The pattern of a text. -/
def parse (source : String) : Pattern :=
  let cs := source.toList
  let segments := collapse ((segmentsOf cs).map Segment.parse)
  { source
    rooted := isRooted cs
    segments := if cs.getLast?.any isSeparator then openEnded segments else segments }

/-- Whether the pattern matches the path of these segments. -/
def acceptsParts (p : Pattern) (rooted : Bool) (path : List (List Char)) : Bool :=
  rooted == p.rooted && (answers p.segments path).headD false

/-- Whether the pattern matches the whole path. -/
def accepts (p : Pattern) (path : String) : Bool :=
  p.acceptsParts (isRooted path.toList) (segmentsOf path.toList)

theorem accepts_eq (p : Pattern) (path : String) : p.accepts path =
    (isRooted path.toList == p.rooted && acceptsSegments p.segments (segmentsOf path.toList)) := by
  rw [accepts, acceptsParts, headD_answers]

@[simp] theorem source_parse (s : String) : (parse s).source = s := rfl

end Pattern

end GrammarBatch
