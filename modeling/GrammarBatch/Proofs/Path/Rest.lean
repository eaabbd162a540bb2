import GrammarBatch.Proofs.Path.Parts

/-!
# What is left of a path

* `Path.spelled`: the parts that pieces spell, one for each piece that is not idle;
* `Path.pieces_ofPieces`, `Path.components_ofPieces`: a path put together from pieces has them, and their parts;
* **`Path.map_components_rest?`**: what is left of a path, as it is written there, has the parts that are left;
* **`GrammarPath.between?_eq_rest?`**: so a grammar path can be read off there.
-/

namespace GrammarBatch

namespace Path

variable {p root file : Path} {b first : Bytes} {pieces rest : List Bytes}

/-! ## Pieces -/

theorem slash_notMem_of_mem_splitOn {bytes : Bytes} (h : b ∈ bytes.splitOn slash) : slash ∉ b := by
  induction bytes generalizing b with
  | nil =>
    obtain rfl : b = [] := by simpa using h
    exact List.not_mem_nil
  | cons x bytes ih =>
    rw [List.splitOn_cons_eq_if_modifyHead] at h
    by_cases hx : x = slash
    · rw [if_pos (by simp [hx])] at h
      rcases List.mem_cons.1 h with rfl | h
      · exact List.not_mem_nil
      · exact ih h
    · rw [if_neg (by simp [hx])] at h
      obtain ⟨head, tail, hs⟩ := List.exists_cons_of_ne_nil (List.splitOn_ne_nil slash bytes)
      rw [hs, List.modifyHead_cons] at h
      rcases List.mem_cons.1 h with rfl | h
      · simpa [Ne.symm hx] using ih (hs ▸ List.mem_cons_self)
      · exact ih (hs ▸ List.mem_cons_of_mem _ h)

theorem slash_notMem_of_mem_pieces (h : b ∈ p.pieces) : slash ∉ b := slash_notMem_of_mem_splitOn h

theorem pieces_eq_cons_nil_of_isAbsolute (h : p.isAbsolute = true) :
    ∃ rest, rest ≠ [] ∧ p.pieces = [] :: rest := by
  obtain ⟨bytes⟩ := p
  cases bytes with
  | nil => cases h
  | cons x bytes =>
    obtain rfl : x = slash := by simpa [isAbsolute] using h
    exact ⟨bytes.splitOn slash, List.splitOn_ne_nil _ _, pieces_slash_cons bytes⟩

theorem exists_pieces_of_relative (h : p.isAbsolute = false) (hne : p.bytes ≠ []) :
    ∃ first rest, p.pieces = first :: rest ∧ first ≠ [] := by
  obtain ⟨x, bytes, hb⟩ := List.exists_cons_of_ne_nil hne
  have hx : x ≠ slash := by simpa [isAbsolute, hb] using h
  obtain ⟨head, tail, hs⟩ := List.exists_cons_of_ne_nil (List.splitOn_ne_nil slash bytes)
  refine ⟨x :: head, tail, ?_, List.cons_ne_nil _ _⟩
  rw [pieces, hb, List.splitOn_cons_eq_if_modifyHead, if_neg (by simp [hx]), hs, List.modifyHead_cons]

theorem pieces_ofPieces (h : ∀ b ∈ pieces, slash ∉ b) (hne : pieces ≠ []) : (ofPieces pieces).pieces = pieces :=
  List.splitOn_intercalate slash h hne

theorem isAbsolute_ofPieces_cons (h : ∀ b ∈ first :: rest, slash ∉ b) (hf : first ≠ [] ∨ rest = []) :
    (ofPieces (first :: rest)).isAbsolute = false := by
  by_contra habs
  obtain ⟨rest', hne, hp⟩ := pieces_eq_cons_nil_of_isAbsolute (Bool.not_eq_false _ ▸ habs)
  rw [pieces_ofPieces h (List.cons_ne_nil _ _)] at hp
  obtain ⟨rfl, rfl⟩ := List.cons.inj hp
  exact hf.elim (absurd rfl) hne

/-! ## The parts that pieces spell -/

/-- The parts that the pieces spell in a longer path, where `.` is none. -/
def spelled (pieces : List Bytes) : List Component := (pieces.filterMap Component.ofPiece?).filter (· != .here)

theorem spelled_pieces (p : Path) : spelled p.pieces = p.parts.filter (· != .here) := rfl

theorem components_eq_spelled (p : Path) : p.components = p.start ++ spelled p.pieces := components_eq p

theorem spelled_append (front back : List Bytes) : spelled (front ++ back) = spelled front ++ spelled back := by
  simp [spelled]

theorem spelled_cons_of_isIdle (h : isIdle b = true) : spelled (b :: pieces) = spelled pieces := by
  have hb : b = [] ∨ b = [dot] := by simpa [isIdle] using h
  rcases hb with rfl | rfl <;> simp [spelled, Component.ofPiece?]

theorem exists_ofPiece? (hs : slash ∉ b) (h : isIdle b = false) :
    ∃ c, Component.ofPiece? b = some c ∧ c ≠ .here ∧ c ≠ .root := by
  obtain ⟨hnil, hdot⟩ : b ≠ [] ∧ b ≠ [dot] := by simpa [isIdle] using h
  rw [Component.ofPiece?, if_neg hnil, if_neg hdot]
  by_cases hup : b = [dot, dot]
  · exact ⟨.up, by rw [if_pos hup], by simp, by simp⟩
  · have hname : Name.ofBytes? b = some ⟨b, hnil, hs, hdot, hup⟩ := dif_pos _
    exact ⟨.name ⟨b, hnil, hs, hdot, hup⟩, by rw [if_neg hup, hname]; rfl, by simp, by simp⟩

theorem exists_spelled_cons (hs : slash ∉ b) (h : isIdle b = false) :
    ∃ c, c ≠ .here ∧ c ≠ .root ∧ ∀ pieces, spelled (b :: pieces) = c :: spelled pieces := by
  obtain ⟨c, hc, hhere, hroot⟩ := exists_ofPiece? hs h
  refine ⟨c, hhere, hroot, fun pieces => ?_⟩
  rw [spelled, List.filterMap_cons_some hc, List.filter_cons_of_pos (by simp [hhere]), spelled]

theorem ne_of_mem_spelled {c : Component} (h : c ∈ spelled pieces) : c ≠ .here ∧ c ≠ .root := by
  obtain ⟨hm, hhere⟩ := List.mem_filter.1 h
  obtain ⟨b, -, hb⟩ := List.mem_filterMap.1 hm
  exact ⟨by simpa using hhere, fun hc => Component.ofPiece?_ne_root b (hc ▸ hb)⟩

theorem spelled_of_forall_isIdle (h : ∀ b ∈ pieces, isIdle b = true) : spelled pieces = [] := by
  induction pieces with
  | nil => rfl
  | cons b pieces ih =>
    rw [spelled_cons_of_isIdle (h b List.mem_cons_self)]
    exact ih fun b hb => h b (List.mem_cons_of_mem _ hb)

theorem length_spelled (h : ∀ b ∈ pieces, slash ∉ b) : (spelled pieces).length = pieces.countP (!isIdle ·) := by
  induction pieces with
  | nil => rfl
  | cons b pieces ih =>
    have ih := ih fun b hb => h b (List.mem_cons_of_mem _ hb)
    cases hb : isIdle b with
    | true => simp [spelled_cons_of_isIdle hb, hb, ih]
    | false =>
      obtain ⟨c, -, -, hc⟩ := exists_spelled_cons (h b List.mem_cons_self) hb
      simp [hc, hb, ih]

theorem spelled_dropParts (h : ∀ b ∈ pieces, slash ∉ b) (count : Nat) :
    spelled (dropParts count pieces) = (spelled pieces).drop count := by
  induction pieces generalizing count with
  | nil => simp [dropParts, spelled]
  | cons b pieces ih =>
    have ih := ih fun b hb => h b (List.mem_cons_of_mem _ hb)
    cases hb : isIdle b with
    | true =>
      have hdrop : dropParts count (b :: pieces) = dropParts count pieces := by simp [dropParts, hb]
      rw [hdrop, ih, spelled_cons_of_isIdle hb]
    | false =>
      cases count with
      | zero => simp [dropParts, hb]
      | succ count =>
        obtain ⟨c, -, -, hc⟩ := exists_spelled_cons (h b List.mem_cons_self) hb
        have hdrop : dropParts (count + 1) (b :: pieces) = dropParts count pieces := by simp [dropParts, hb]
        rw [hdrop, ih, hc, List.drop_succ_cons]

theorem dropParts_sublist (count : Nat) (pieces : List Bytes) : (dropParts count pieces).Sublist pieces := by
  fun_induction dropParts count pieces with
  | case1 => exact .slnil
  | case2 _ _ _ _ ih => exact .cons _ ih
  | case3 => exact .refl _
  | case4 _ _ _ _ ih => exact .cons _ ih

theorem isIdle_head_dropParts {count : Nat} (h : dropParts count pieces = b :: rest) : isIdle b = false := by
  fun_induction dropParts count pieces with
  | case1 => cases h
  | case2 _ _ _ _ ih => exact ih h
  | case3 _ _ hb =>
    obtain ⟨rfl, -⟩ := List.cons.inj h
    simpa using hb
  | case4 _ _ _ _ ih => exact ih h

/-- The pieces that go from the end are idle. -/
theorem exists_eq_dropIdle_append (pieces : List Bytes) :
    ∃ idle, pieces = dropIdle pieces ++ idle ∧ ∀ b ∈ idle, isIdle b = true := by
  refine ⟨(pieces.reverse.takeWhile fun b => b = [] ∨ b = [dot]).reverse, ?_, fun b hb => ?_⟩
  · rw [dropIdle, ← List.reverse_append, List.takeWhile_append_dropWhile, List.reverse_reverse]
  · exact List.mem_takeWhile_imp (List.mem_reverse.1 hb)

theorem spelled_dropIdle (pieces : List Bytes) : spelled (dropIdle pieces) = spelled pieces := by
  obtain ⟨idle, h, hidle⟩ := exists_eq_dropIdle_append pieces
  conv_rhs => rw [h, spelled_append, spelled_of_forall_isIdle hidle, List.append_nil]

theorem spelled_cons_dropIdle (b : Bytes) (pieces : List Bytes) :
    spelled (b :: dropIdle pieces) = spelled (b :: pieces) := by
  rw [← List.singleton_append, spelled_append, spelled_dropIdle, ← spelled_append, List.singleton_append]

theorem mem_of_mem_dropIdle (h : b ∈ dropIdle pieces) : b ∈ pieces := by
  obtain ⟨idle, hp, -⟩ := exists_eq_dropIdle_append pieces
  rw [hp]
  exact List.mem_append_left _ h

/-- A path put together from pieces of which the first is not idle has just the parts that they spell. -/
theorem components_ofPieces (h : ∀ b ∈ pieces, slash ∉ b) (hf : ∀ b rest, pieces = b :: rest → isIdle b = false) :
    (ofPieces pieces).components = spelled pieces := by
  cases pieces with
  | nil => rfl
  | cons b rest =>
    obtain ⟨hnil, hdot⟩ : b ≠ [] ∧ b ≠ [dot] := by simpa [isIdle] using hf b rest rfl
    have hp : (ofPieces (b :: rest)).pieces = b :: rest := pieces_ofPieces h (List.cons_ne_nil _ _)
    rw [components_eq_spelled, hp, start, hp, isAbsolute_ofPieces_cons h (Or.inl hnil)]
    simp [hdot]

/-! ## What is left -/

theorem components_upToLast (p : Path) : p.upToLast.components = p.components := by
  have hmem {first : Bytes} {rest : List Bytes} (hp : p.pieces = first :: rest) :
      ∀ b ∈ first :: dropIdle rest, slash ∉ b := by
    intro b hb
    apply slash_notMem_of_mem_pieces (p := p)
    rw [hp]
    rcases List.mem_cons.1 hb with rfl | hb
    · exact List.mem_cons_self
    · exact List.mem_cons_of_mem _ (mem_of_mem_dropIdle hb)
  by_cases habs : p.isAbsolute = true
  · obtain ⟨rest, -, hp⟩ := pieces_eq_cons_nil_of_isAbsolute habs
    have hup : p.upToLast = ⟨slash :: (ofPieces (dropIdle rest)).bytes⟩ := by simp [upToLast, hp, habs]
    have hpieces : p.upToLast.pieces = [] :: (ofPieces (dropIdle rest)).pieces := by
      rw [hup, pieces_slash_cons]
    have hspelled : spelled (ofPieces (dropIdle rest)).pieces = spelled rest := by
      by_cases hnil : dropIdle rest = []
      · rw [← spelled_dropIdle rest, hnil]
        rfl
      · rw [pieces_ofPieces (fun b hb => hmem hp b (List.mem_cons_of_mem _ hb)) hnil, spelled_dropIdle]
    have hup' : p.upToLast.isAbsolute = true := by
      rw [hup]
      rfl
    rw [components_eq_spelled, components_eq_spelled p, hpieces, hp, spelled_cons_of_isIdle rfl,
      spelled_cons_of_isIdle rfl, hspelled, start, start, if_pos hup', if_pos habs]
  · by_cases hnil : p.bytes = []
    · obtain rfl : p = ⟨[]⟩ := congrArg Path.mk hnil
      rfl
    · obtain ⟨first, rest, hp, hfirst⟩ := exists_pieces_of_relative (Bool.eq_false_iff.2 habs) hnil
      have hup : p.upToLast = ofPieces (first :: dropIdle rest) := by simp [upToLast, hp, habs]
      have hpieces : p.upToLast.pieces = first :: dropIdle rest := by
        rw [hup, pieces_ofPieces (hmem hp) (List.cons_ne_nil _ _)]
      have hup' : p.upToLast.isAbsolute = false := by
        rw [hup, isAbsolute_ofPieces_cons (hmem hp) (Or.inl hfirst)]
      rw [components_eq_spelled, components_eq_spelled p, hpieces, hp, spelled_cons_dropIdle, start, start, hpieces,
        hp, hup', Bool.eq_false_iff.2 habs]
      rfl

theorem start_cases (p : Path) : p.start = [] ∨ ∃ c, p.start = [c] ∧ (c = .here ∨ c = .root) := by
  unfold start
  split_ifs <;> simp

theorem exists_components_cons (hp : p.bytes ≠ []) (hs : p.start = []) :
    ∃ c rest, p.components = c :: rest ∧ c ≠ .here ∧ c ≠ .root := by
  have habs : p.isAbsolute = false := by
    by_contra habs
    simp [start, Bool.not_eq_false _ ▸ habs] at hs
  obtain ⟨first, rest, hpieces, hfirst⟩ := exists_pieces_of_relative habs hp
  have hidle : isIdle first = false := by
    have hdot : first ≠ [dot] := by simpa [start, habs, hpieces] using hs
    simp [isIdle, hfirst, hdot]
  have hslash : slash ∉ first := slash_notMem_of_mem_pieces (hpieces ▸ List.mem_cons_self)
  obtain ⟨c, hhere, hroot, hc⟩ := exists_spelled_cons hslash hidle
  exact ⟨c, spelled rest, by rw [components_eq_spelled, hs, hpieces, hc, List.nil_append], hhere, hroot⟩

/-- A path that is not empty begins as the paths do that have its parts in front. -/
theorem start_of_prefix (hr : root.bytes ≠ []) (h : root.components <+: file.components) :
    root.start = file.start := by
  obtain ⟨left, h⟩ := h
  have hfile : file.start ++ spelled file.pieces = root.components ++ left := by rw [h, components_eq_spelled]
  rcases start_cases root with hs | ⟨c, hs, hc⟩
  · obtain ⟨c, rest, hcomponents, hhere, hroot⟩ := exists_components_cons hr hs
    rcases start_cases file with hs' | ⟨c', hs', hc'⟩
    · rw [hs, hs']
    · rw [hs', hcomponents] at hfile
      obtain rfl : c' = c := (List.cons.inj hfile).1
      exact absurd hc' (by simp [hhere, hroot])
  · rw [components_eq_spelled, hs] at hfile
    rcases start_cases file with hs' | ⟨c', hs', -⟩
    · have hm : c ∈ spelled file.pieces := by
        rw [hs', List.nil_append] at hfile
        rw [hfile]
        exact List.mem_cons_self
      obtain ⟨hhere, hroot⟩ := ne_of_mem_spelled hm
      exact absurd hc (by simp [hhere, hroot])
    · rw [hs'] at hfile
      obtain rfl : c' = c := (List.cons.inj hfile).1
      rw [hs, hs']

/-- **What is left of a path, as it is written there, has the parts that are left of the path.** -/
theorem map_components_rest? (root file : Path) :
    (root.rest? file).map components = root.components.isPrefixOf? file.components := by
  by_cases hr : root.bytes = []
  · obtain rfl : root = ⟨[]⟩ := congrArg Path.mk hr
    rw [rest?, if_pos rfl, Option.map_some, components_upToLast]
    rfl
  by_cases hprefix : root.components <+: file.components
  · have hmem : ∀ b ∈ file.pieces, slash ∉ b := fun b hb => slash_notMem_of_mem_pieces hb
    have hcount : root.pieces.countP (!isIdle ·) = (spelled root.pieces).length :=
      (length_spelled fun b hb => slash_notMem_of_mem_pieces hb).symm
    have hleft : ∀ b ∈ dropIdle (dropParts (spelled root.pieces).length file.pieces), slash ∉ b := fun b hb =>
      hmem b ((dropParts_sublist _ _).subset (mem_of_mem_dropIdle hb))
    have hhead : ∀ b rest, dropIdle (dropParts (spelled root.pieces).length file.pieces) = b :: rest →
        isIdle b = false := by
      intro b rest h
      obtain ⟨idle, hp, -⟩ := exists_eq_dropIdle_append (dropParts (spelled root.pieces).length file.pieces)
      rw [h, List.cons_append] at hp
      exact isIdle_head_dropParts hp
    obtain ⟨left, hl⟩ := hprefix
    have hspelled : spelled file.pieces = spelled root.pieces ++ left := by
      have hstart := start_of_prefix hr ⟨left, hl⟩
      rw [components_eq_spelled, components_eq_spelled file, hstart, List.append_assoc] at hl
      exact (List.append_cancel_left hl).symm
    rw [rest?, if_neg hr, if_pos (List.isPrefixOf_iff_prefix.2 ⟨left, hl⟩), hcount, Option.map_some,
      components_ofPieces hleft hhead, spelled_dropIdle, spelled_dropParts hmem, hspelled, List.drop_left,
      eq_comm, List.isPrefixOf?_eq_some_iff_append_eq]
    exact hl
  · have hnone : root.components.isPrefixOf? file.components = none := by
      rw [Option.eq_none_iff_forall_ne_some]
      rintro left hl
      exact hprefix ⟨left, List.isPrefixOf?_eq_some_iff_append_eq.1 hl⟩
    rw [rest?, if_neg hr, if_neg (by rwa [List.isPrefixOf_iff_prefix]), hnone]
    rfl

end Path

/-- **A grammar path is read off what is left of the path of its file, as it is written there.** -/
theorem GrammarPath.between?_eq_rest? (root file : Path) :
    between? root file = (root.rest? file).bind fun rest => (names? rest.components).bind ofNames? := by
  have h := Path.map_components_rest? root file
  cases hr : root.rest? file with
  | none =>
    rw [hr] at h
    simp [between?, ← h]
  | some rest =>
    rw [hr] at h
    simp [between?, ← h]

end GrammarBatch
