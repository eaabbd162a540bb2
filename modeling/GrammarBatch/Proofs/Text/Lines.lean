import GrammarBatch.Text.Lines

/-!
# What the lines of a text are

* `Text.CutInto`: a text is cut into lines at its line feeds, a carriage return in front of one goes, and a
  last line that no line feed ends counts if there is something in it;
* **`Text.cutInto_iff`**: each text is cut into one list of lines, which is `Text.lines`.
-/

namespace GrammarBatch.Text

/-- The text consists of the lines, each with its end. -/
inductive CutInto : List Char → List (List Char) → Prop where
  | nothing : CutInto [] []
  /-- The last line has no end, and keeps a carriage return. -/
  | unfinished {line : List Char} (hne : line ≠ []) (hl : '\n' ∉ line) : CutInto line [line]
  | feed {line rest : List Char} {lines : List (List Char)} (hl : '\n' ∉ line)
    (hr : line.getLast? ≠ some '\r') (h : CutInto rest lines) :
    CutInto (line ++ '\n' :: rest) (line :: lines)
  | returnFeed {line rest : List Char} {lines : List (List Char)} (hl : '\n' ∉ line)
    (h : CutInto rest lines) : CutInto (line ++ '\r' :: '\n' :: rest) (line :: lines)

variable {line rest text : List Char}

theorem lines_of_notMem (h : '\n' ∉ line) : lines line = if line = [] then [] else [line] := by
  rw [lines, List.splitOn_eq_singleton h]
  by_cases hl : line = [] <;> simp [hl]

theorem lines_append_feed (h : '\n' ∉ line) (rest : List Char) :
    lines (line ++ '\n' :: rest) = dropReturn line :: lines rest := by
  have hne : rest.splitOn '\n' ≠ [] := List.splitOn_ne_nil _ _
  simp only [lines, List.splitOn_append_cons_self, List.splitOn_eq_singleton h, List.singleton_append]
  rw [List.dropLast_cons_of_ne_nil hne, List.getLast?_cons_of_ne_nil hne, List.map_cons, List.cons_append]

theorem dropReturn_of_getLast? (h : line.getLast? ≠ some '\r') : dropReturn line = line := if_neg h

theorem dropReturn_concat (line : List Char) : dropReturn (line ++ ['\r']) = line := by
  simp [dropReturn]

/-- A text is cut at its first line feed, and the rest after it in turn. -/
theorem cutInto_lines (text : List Char) : CutInto text (lines text) := by
  by_cases hn : '\n' ∈ text
  · obtain ⟨line, rest, rfl, hl⟩ := List.eq_append_cons_of_mem hn
    have ih := cutInto_lines rest
    rw [lines_append_feed hl]
    by_cases hr : line.getLast? = some '\r'
    · obtain ⟨front, rfl⟩ := List.getLast?_eq_some_iff.1 hr
      rw [dropReturn_concat, List.append_assoc, List.singleton_append]
      exact .returnFeed (fun h => hl (List.mem_append_left _ h)) ih
    · rw [dropReturn_of_getLast? hr]
      exact .feed hl hr ih
  · rw [lines_of_notMem hn]
    by_cases ht : text = []
    · rw [if_pos ht, ht]
      exact .nothing
    · rw [if_neg ht]
      exact .unfinished ht hn
termination_by text.length
decreasing_by subst_vars; simp; omega

/-- **There is one way to cut a text into lines.** -/
theorem cutInto_iff {ls : List (List Char)} : CutInto text ls ↔ ls = lines text := by
  constructor
  · intro h
    induction h with
    | nothing => rfl
    | unfinished hne hl => rw [lines_of_notMem hl, if_neg hne]
    | feed hl hr _ ih => rw [lines_append_feed hl, dropReturn_of_getLast? hr, ih]
    | @returnFeed line rest _ hl _ ih =>
      have hl' : '\n' ∉ line ++ ['\r'] := by simp [hl]
      have hlines := lines_append_feed hl' rest
      rw [List.append_assoc, List.singleton_append, dropReturn_concat] at hlines
      rw [hlines, ih]
  · rintro rfl
    exact cutInto_lines text

end GrammarBatch.Text
