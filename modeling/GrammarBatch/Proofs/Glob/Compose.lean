import GrammarBatch.Proofs.Glob.PatternSet

/-!
# Patterns in a row

Two patterns with a separator between them take a path apart: the first one takes the segments in front, the
second one the rest.

* `pathOf`: a path that is spelled from its segments;
* `IsSegment`, `segmentsOf_pathOf`: segments are names without separators, and come back from the path that is
  spelled from them;
* `Pattern.accepts_parse_eq`: acceptance without the compiled form;
* **`Pattern.accepts_slash_iff`**: the law for two patterns in a row, and what it means for `/**`.
-/

namespace GrammarBatch

/-! ## Paths from segments -/

/-- The path of these segments, with a separator in front if it is rooted. -/
def pathOf (rooted : Bool) (segments : List (List Char)) : String :=
  String.ofList ((if rooted then ['/'] else []) ++ ['/'].intercalate segments)

variable {cs : List Char} {segments : List (List Char)} {rooted : Bool}

theorem isRooted_append {a b : List Char} (h : a ≠ []) : isRooted (a ++ b) = isRooted a := by
  rw [isRooted, List.head?_append_of_ne_nil a h, ← isRooted]

theorem notMem_of_mem_splitOnP {p : Char → Bool} {part : List Char} (h : part ∈ cs.splitOnP p) :
    ∀ c ∈ part, p c = false := by
  induction cs generalizing part with
  | nil =>
    rw [List.splitOnP_nil, List.mem_singleton] at h
    subst h
    exact nofun
  | cons c cs ih =>
    rw [List.splitOnP_cons_eq_if_modifyHead] at h
    obtain ⟨first, rest, hsplit⟩ := List.exists_cons_of_ne_nil (List.splitOnP_ne_nil p cs)
    rw [hsplit] at h ih
    split at h
    · rcases List.mem_cons.1 h with rfl | h
      · exact nofun
      · exact ih h
    · rename_i hc
      rcases List.mem_cons.1 h with rfl | h
      · intro d hd
        rcases List.mem_cons.1 hd with rfl | hd
        · exact Bool.eq_false_iff.2 hc
        · exact ih List.mem_cons_self d hd
      · exact ih (List.mem_cons_of_mem first h)

/-- Some characters, and no separator. -/
def IsSegment (s : List Char) : Prop := s ≠ [] ∧ ∀ c ∈ s, isSeparator c = false

theorem isSegment_of_mem {segment : List Char} (h : segment ∈ segmentsOf cs) : IsSegment segment := by
  obtain ⟨hpart, hne⟩ := List.mem_filter.1 h
  refine ⟨?_, notMem_of_mem_splitOnP hpart⟩
  rintro rfl
  cases hne

theorem isSegment_of_append_eq {first rest : List (List Char)} (h : first ++ rest = segmentsOf cs) :
    (∀ s ∈ first, IsSegment s) ∧ ∀ s ∈ rest, IsSegment s := by
  rw [← List.forall_mem_append, h]
  exact fun s hs => isSegment_of_mem hs

theorem segmentsOf_intercalate (h : ∀ s ∈ segments, IsSegment s) :
    segmentsOf (['/'].intercalate segments) = segments := by
  induction segments with
  | nil => rfl
  | cons s rest ih =>
    obtain ⟨hne, hplain⟩ := h s List.mem_cons_self
    have hs : segmentsOf s = [s] := segmentsOf_eq_singleton hne hplain
    have ih := ih fun r hr => h r (List.mem_cons_of_mem s hr)
    cases rest with
    | nil => rw [List.intercalate_singleton, hs]
    | cons r rest =>
      rw [List.intercalate_cons_cons, List.append_assoc, List.singleton_append,
        segmentsOf_append_cons _ _ rfl, hs, ih, List.singleton_append]

theorem segmentsOf_pathOf (h : ∀ s ∈ segments, IsSegment s) :
    segmentsOf (pathOf rooted segments).toList = segments := by
  rw [pathOf, String.toList_ofList]
  cases rooted with
  | false => exact segmentsOf_intercalate h
  | true => exact (segmentsOf_append_cons [] _ rfl).trans (segmentsOf_intercalate h)

theorem isRooted_pathOf (h : ∀ s ∈ segments, IsSegment s) :
    isRooted (pathOf rooted segments).toList = rooted := by
  rw [pathOf, String.toList_ofList]
  cases rooted with
  | true => rfl
  | false =>
    change isRooted (['/'].intercalate segments) = false
    cases segments with
    | nil => rfl
    | cons s rest =>
      obtain ⟨hne, hplain⟩ := h s List.mem_cons_self
      have hs : isRooted s = false := by
        obtain ⟨c, s, rfl⟩ := List.exists_cons_of_ne_nil hne
        exact hplain c List.mem_cons_self
      cases rest with
      | nil => rwa [List.intercalate_singleton]
      | cons r rest =>
        rwa [List.intercalate_cons_cons, List.append_assoc, isRooted_append hne]

namespace Pattern

/-! ## Patterns in a row -/

/-- Acceptance without the compiled form: both are rooted or neither is, and the segments that the pattern
spells accept those of the path. -/
theorem accepts_parse_eq (p t : String) : (parse p).accepts t =
    (isRooted t.toList == isRooted p.toList &&
      acceptsSegments ((spelled p.toList).map Segment.parse) (segmentsOf t.toList)) := by
  rw [accepts_eq, acceptsSegments_segments_parse]
  rfl

theorem accepts_pathOf (p : String) (h : ∀ s ∈ segments, IsSegment s) :
    (parse p).accepts (pathOf rooted segments) = true ↔
      rooted = isRooted p.toList ∧ acceptsSegments ((spelled p.toList).map Segment.parse) segments = true := by
  rw [accepts_parse_eq, isRooted_pathOf h, segmentsOf_pathOf h, Bool.and_eq_true, beq_iff_eq]

/-- The pattern behind the separator says how the whole ends. -/
theorem spelled_append_cons {a b : List Char} {c : Char} (hc : isSeparator c = true) (hb : b ≠ []) :
    spelled (a ++ c :: b) = segmentsOf a ++ spelled b := by
  have hlast : (a ++ c :: b).getLast? = b.getLast? := by
    rw [List.getLast?_append_of_ne_nil a (List.cons_ne_nil c b), List.getLast?_cons_of_ne_nil hb]
  rw [spelled, spelled, segmentsOf_append_cons a b hc, hlast, List.append_assoc]

theorem spelled_of_not_endsInSeparator (h : cs.getLast?.any isSeparator = false) :
    spelled cs = segmentsOf cs := by
  rw [spelled, h, if_neg Bool.false_ne_true, List.append_nil]

variable {p q : String}

theorem accepts_slash (hp : p ≠ "") (hend : p.toList.getLast?.any isSeparator = false) (hq : q ≠ "")
    (hstart : isRooted q.toList = false) (t : String) :
    (parse (p ++ "/" ++ q)).accepts t = true ↔ ∃ first rest, first ++ rest = segmentsOf t.toList ∧
      (parse p).accepts (pathOf (isRooted t.toList) first) = true ∧
      (parse q).accepts (pathOf false rest) = true := by
  have hchars : (p ++ "/" ++ q).toList = p.toList ++ '/' :: q.toList := by simp
  have hp' : p.toList ≠ [] := by simpa using hp
  have hq' : q.toList ≠ [] := by simpa using hq
  rw [accepts_parse_eq, hchars, isRooted_append hp', spelled_append_cons rfl hq', List.map_append,
    ← spelled_of_not_endsInSeparator hend, Bool.and_eq_true, beq_iff_eq, acceptsSegments_append]
  constructor
  · rintro ⟨hrooted, first, rest, hsplit, hfirst, hrest⟩
    obtain ⟨hnames, hnames'⟩ := isSegment_of_append_eq hsplit
    refine ⟨first, rest, hsplit, ?_, ?_⟩
    · exact (accepts_pathOf p hnames).2 ⟨hrooted, hfirst⟩
    · exact (accepts_pathOf q hnames').2 ⟨hstart.symm, hrest⟩
  · rintro ⟨first, rest, hsplit, hfirst, hrest⟩
    obtain ⟨hnames, hnames'⟩ := isSegment_of_append_eq hsplit
    obtain ⟨hrooted, hfirst⟩ := (accepts_pathOf p hnames).1 hfirst
    obtain ⟨-, hrest⟩ := (accepts_pathOf q hnames').1 hrest
    exact ⟨hrooted, first, rest, hsplit, hfirst, hrest⟩

theorem accepts_anyDepth (t : String) : (parse "**").accepts t = !isRooted t.toList := by
  have hsegments : (parse "**").segments = [.anyDepth] := by decide
  have hrooted : (parse "**").rooted = false := by decide
  rw [accepts_eq, hsegments, hrooted, acceptsSegments_anyDepth, Bool.and_true, beq_false]

theorem accepts_below (hp : p ≠ "") (hend : p.toList.getLast?.any isSeparator = false) (t : String) :
    (parse (p ++ "/**")).accepts t = true ↔ ∃ first, first <+: segmentsOf t.toList ∧
      (parse p).accepts (pathOf (isRooted t.toList) first) = true := by
  have htext : p ++ "/**" = p ++ "/" ++ "**" := by
    rw [String.append_assoc]
    rfl
  rw [htext, accepts_slash hp hend (by decide) (by decide)]
  constructor
  · rintro ⟨first, rest, hsplit, hfirst, -⟩
    exact ⟨first, ⟨rest, hsplit⟩, hfirst⟩
  · rintro ⟨first, ⟨rest, hsplit⟩, hfirst⟩
    refine ⟨first, rest, hsplit, hfirst, ?_⟩
    rw [accepts_anyDepth, isRooted_pathOf (isSegment_of_append_eq hsplit).2]
    rfl

/-- **Two patterns in a row take a path apart into a first part and a rest. So `p/**` takes the paths of which
`p` takes a part in front, and with a path every path below it.** -/
theorem accepts_slash_iff (hp : p ≠ "") (hend : p.toList.getLast?.any isSeparator = false) (hq : q ≠ "")
    (hstart : isRooted q.toList = false) (t : String) :
    ((parse (p ++ "/" ++ q)).accepts t = true ↔ ∃ first rest, first ++ rest = segmentsOf t.toList ∧
      (parse p).accepts (pathOf (isRooted t.toList) first) = true ∧
      (parse q).accepts (pathOf false rest) = true) ∧
    ((parse (p ++ "/**")).accepts t = true ↔ ∃ first, first <+: segmentsOf t.toList ∧
      (parse p).accepts (pathOf (isRooted t.toList) first) = true) ∧
    ∀ t' : String, isRooted t'.toList = isRooted t.toList →
      segmentsOf t.toList <+: segmentsOf t'.toList →
      (parse (p ++ "/**")).accepts t = true → (parse (p ++ "/**")).accepts t' = true := by
  refine ⟨accepts_slash hp hend hq hstart t, accepts_below hp hend t, ?_⟩
  intro t' hrooted hbelow h
  obtain ⟨first, hfirst, htake⟩ := (accepts_below hp hend t).1 h
  rw [← hrooted] at htake
  exact (accepts_below hp hend t').2 ⟨first, hfirst.trans hbelow, htake⟩

/-- The seam may lie between two `**`, and the second pattern may end in a separator: `/a/**` and `**/b/` in a
row take a rooted path apart behind its second segment, and `/a/**/**` takes what is below that. -/
theorem accepts_slash_seam :
    isRooted "\\a/x//b".toList = true ∧ segmentsOf "\\a/x//b".toList = [['a'], ['x'], ['b']] ∧
    (parse "/a/**").accepts (pathOf true [['a'], ['x']]) = true ∧
    (parse "**/b/").accepts (pathOf false [['b']]) = true ∧
    (parse ("/a/**" ++ "/" ++ "**/b/")).accepts "\\a/x//b" = true ∧
    (parse ("/a/**" ++ "/**")).accepts "/a/x/b/c" = true := by
  have hrooted : isRooted "\\a/x//b".toList = true := by decide
  have hsegments : segmentsOf "\\a/x//b".toList = [['a'], ['x'], ['b']] := by decide +kernel
  have hfirst : (parse "/a/**").accepts (pathOf true [['a'], ['x']]) = true := by decide +kernel
  have hrest : (parse "**/b/").accepts (pathOf false [['b']]) = true := by decide +kernel
  have hlonger : segmentsOf "\\a/x//b".toList <+: segmentsOf "/a/x/b/c".toList := by decide +kernel
  obtain ⟨hslash, hbelow, hdescend⟩ := accepts_slash_iff (p := "/a/**") (q := "**/b/") (by decide) (by decide)
    (by decide) (by decide) "\\a/x//b"
  refine ⟨hrooted, hsegments, hfirst, hrest, ?_, ?_⟩
  · refine hslash.2 ⟨[['a'], ['x']], [['b']], hsegments.symm, ?_, hrest⟩
    rwa [hrooted]
  · refine hdescend _ (by decide) hlonger (hbelow.2 ⟨[['a'], ['x']], ?_, ?_⟩)
    · rw [hsegments]
      exact ⟨[['b']], rfl⟩
    · rwa [hrooted]

end Pattern

end GrammarBatch
