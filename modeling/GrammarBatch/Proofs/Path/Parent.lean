import GrammarBatch.Proofs.Path.Rest

/-!
# The path around a path

* `Path.parts_parent?`: the path around a path has the pieces in front of the last one that counts;
* `Path.prefix_parts_parent?`: so it makes the moves in front;
* `Path.spelled_parent?`: and it has all the parts but the last one.
-/

namespace GrammarBatch.Path

variable {p q : Path} {b : Bytes} {pieces front : List Bytes}

theorem prefix_dropIdle (pieces : List Bytes) : dropIdle pieces <+: pieces := by
  obtain ⟨idle, hp, -⟩ := exists_eq_dropIdle_append pieces
  exact ⟨idle, hp.symm⟩

theorem isIdle_of_dropIdle_eq (h : dropIdle pieces = front ++ [b]) : isIdle b = false := by
  have hrev : (pieces.reverse.dropWhile fun b => b = [] ∨ b = [dot]) = b :: front.reverse := by
    rw [dropIdle, List.reverse_eq_iff] at h
    simpa using h
  have hb := List.head?_dropWhile_not (fun b : Bytes => decide (b = [] ∨ b = [dot])) pieces.reverse
  rw [hrev] at hb
  exact Bool.eq_false_iff.2 (by simpa [isIdle] using hb)

theorem parts_of_pieces (h : ∀ b ∈ pieces, slash ∉ b) :
    (ofPieces pieces).parts = pieces.filterMap Component.ofPiece? := by
  by_cases hnil : pieces = []
  · subst hnil
    rfl
  · rw [parts, pieces_ofPieces h hnil]

theorem parts_slash_cons (bytes : Bytes) : (⟨slash :: bytes⟩ : Path).parts = (⟨bytes⟩ : Path).parts := by
  rw [parts, pieces_slash_cons, List.filterMap_cons_none rfl, parts]

/-- The last piece that counts goes, and the idle ones around it. -/
theorem parent?_of_dropIdle_eq {first : Bytes} {rest : List Bytes} (hp : p.pieces = first :: rest)
    (h : dropIdle rest = front ++ [b]) :
    p.parent? = if p.isAbsolute then some ⟨slash :: (ofPieces (dropIdle front)).bytes⟩
      else some (ofPieces (first :: dropIdle front)) := by
  obtain ⟨b', rest', hcons⟩ := List.exists_cons_of_ne_nil (List.concat_ne_nil b front)
  rw [parent?, hp]
  dsimp only
  rw [h, hcons]
  dsimp only
  rw [← hcons, List.dropLast_concat]

theorem mem_pieces_of_mem_front {first : Bytes} {rest : List Bytes} {c : Bytes} (hp : p.pieces = first :: rest)
    (h : dropIdle rest = front ++ [b]) (hc : c ∈ first :: dropIdle front) : c ∈ p.pieces := by
  rw [hp]
  rcases List.mem_cons.1 hc with rfl | hc
  · exact List.mem_cons_self
  · refine List.mem_cons_of_mem _ (mem_of_mem_dropIdle ?_)
    rw [h]
    exact List.mem_append_left _ (mem_of_mem_dropIdle hc)

theorem parts_of_dropIdle_eq {first : Bytes} {rest : List Bytes} (hp : p.pieces = first :: rest)
    (hfront : dropIdle rest = front ++ [b]) (h : p.parent? = some q) :
    q.parts = (first :: dropIdle front).filterMap Component.ofPiece? ∧ q.isAbsolute = p.isAbsolute := by
  have hslash : ∀ c ∈ first :: dropIdle front, slash ∉ c := fun c hc =>
    slash_notMem_of_mem_pieces (mem_pieces_of_mem_front hp hfront hc)
  rw [parent?_of_dropIdle_eq hp hfront] at h
  by_cases habs : p.isAbsolute = true
  · obtain ⟨rest', -, hp'⟩ := pieces_eq_cons_nil_of_isAbsolute habs
    obtain rfl : first = [] := (List.cons.inj (hp.symm.trans hp')).1
    rw [if_pos habs] at h
    obtain rfl := Option.some.inj h
    refine ⟨?_, by rw [habs]; rfl⟩
    rw [parts_slash_cons, parts_of_pieces fun c hc => hslash c (List.mem_cons_of_mem _ hc),
      List.filterMap_cons_none rfl]
  · rw [if_neg habs] at h
    obtain rfl := Option.some.inj h
    have hne : p.bytes ≠ [] := by
      rintro hb
      rw [pieces, hb] at hp
      obtain ⟨rfl, rfl⟩ := List.cons.inj (hp.symm.trans (List.splitOn_nil slash))
      simp [dropIdle] at hfront
    obtain ⟨first', rest', hp', hfirst⟩ := exists_pieces_of_relative (Bool.eq_false_iff.2 habs) hne
    obtain rfl : first = first' := (List.cons.inj (hp.symm.trans hp')).1
    refine ⟨parts_of_pieces hslash, ?_⟩
    rw [isAbsolute_ofPieces_cons hslash (Or.inl hfirst), Bool.eq_false_iff.2 habs]

/-- The path around a path is the empty one, or spelled by the pieces in front of the last one that counts. -/
theorem parts_parent? (h : p.parent? = some q) : ∃ first rest, p.pieces = first :: rest ∧
    ((q = ⟨[]⟩ ∧ first ≠ [] ∧ dropIdle rest = []) ∨ ∃ front b, dropIdle rest = front ++ [b] ∧
      q.parts = (first :: dropIdle front).filterMap Component.ofPiece? ∧
      q.isAbsolute = p.isAbsolute) := by
  obtain ⟨first, rest, hp⟩ := List.exists_cons_of_ne_nil (List.splitOn_ne_nil slash p.bytes)
  refine ⟨first, rest, hp, ?_⟩
  rcases List.eq_nil_or_concat' (dropIdle rest) with hnil | ⟨front, b, hfront⟩
  · rw [parent?, pieces, hp] at h
    dsimp only at h
    rw [hnil] at h
    by_cases hf : first = []
    · simp [hf] at h
    · rw [if_neg hf] at h
      exact Or.inl ⟨(Option.some.inj h).symm, hf, hnil⟩
  · exact Or.inr ⟨front, b, hfront, parts_of_dropIdle_eq hp hfront h⟩

theorem exists_parent?_of_relative (h : p.isAbsolute = false) (hne : p.bytes ≠ []) : ∃ q, p.parent? = some q := by
  obtain ⟨first, rest, hp, hfirst⟩ := exists_pieces_of_relative h hne
  rw [parent?, hp]
  dsimp only
  split
  · exact ⟨_, if_neg hfirst⟩
  · exact ⟨_, if_neg (by simp [h])⟩

theorem isAbsolute_parent? (h : p.parent? = some q) : q.isAbsolute = p.isAbsolute := by
  obtain ⟨first, rest, hp, ⟨rfl, hfirst, -⟩ | ⟨front, b, -, -, hq⟩⟩ := parts_parent? h
  · show false = p.isAbsolute
    rw [eq_comm, Bool.eq_false_iff]
    intro habs
    obtain ⟨rest', -, hp'⟩ := pieces_eq_cons_nil_of_isAbsolute habs
    exact hfirst (List.cons.inj (hp.symm.trans hp')).1
  · exact hq

theorem prefix_parts_parent? (h : p.parent? = some q) : q.parts <+: p.parts := by
  obtain ⟨first, rest, hp, ⟨rfl, -, -⟩ | ⟨front, b, hfront, hq, -⟩⟩ := parts_parent? h
  · exact List.nil_prefix
  · have hprefix : dropIdle front <+: rest :=
      (prefix_dropIdle front).trans ((hfront ▸ List.prefix_append front [b]).trans (prefix_dropIdle rest))
    rw [hq, parts, hp]
    exact (List.cons_prefix_cons.2 ⟨rfl, hprefix⟩).filterMap _

/-- The path around a path has all its parts but the last one. -/
theorem spelled_parent? (h : p.parent? = some q) : spelled q.pieces = (spelled p.pieces).dropLast := by
  obtain ⟨first, rest, hp, ⟨rfl, -, hrest⟩ | ⟨front, b, hfront, hq, -⟩⟩ := parts_parent? h
  · have hone : (spelled p.pieces).length ≤ 1 := by
      rw [hp, ← spelled_cons_dropIdle, hrest]
      refine le_trans ?_ (List.length_filterMap_le Component.ofPiece? [first])
      exact List.length_filter_le _ _
    have hnil : (spelled p.pieces).dropLast = [] := by
      rw [← List.length_eq_zero_iff, List.length_dropLast]
      omega
    rw [hnil]
    rfl
  · have hslash : slash ∉ b := by
      refine slash_notMem_of_mem_pieces (p := p) (hp ▸ List.mem_cons_of_mem _ (mem_of_mem_dropIdle ?_))
      simp [hfront]
    obtain ⟨c, -, -, hc⟩ := exists_spelled_cons hslash (isIdle_of_dropIdle_eq hfront)
    calc spelled q.pieces = spelled (first :: dropIdle front) := by rw [spelled_pieces, hq, spelled]
      _ = spelled (first :: front) := spelled_cons_dropIdle first front
      _ = (spelled (first :: front) ++ [c]).dropLast := List.dropLast_concat.symm
      _ = (spelled (first :: front ++ [b])).dropLast := by rw [spelled_append, hc []]; rfl
      _ = (spelled p.pieces).dropLast := by
        rw [hp, List.cons_append, ← hfront, spelled_cons_dropIdle]

end GrammarBatch.Path
