import GrammarBatch.Proofs.Files.Folders
import Mathlib.Data.List.TakeWhile

/-!
# Paths from the root

* `FileSystem.find_of_isAbsolute`, `FileSystem.readText_of_isAbsolute`: such a path leads to the same entry from
  every directory;
* `FileSystem.isAbsolute_parent_of_readText`: a file that it leads to lies in a directory whose path is from
  the root, too.
-/

namespace GrammarBatch

theorem Path.route_of_isAbsolute {p : Path} (h : p.isAbsolute = true) :
    p.route = .root :: (p.parts ++ if p.endsInSlash then [.here] else []) := by
  rw [route, if_pos h, List.append_assoc, List.singleton_append]

/-- The only absolute path that is in no directory is that of the root. -/
theorem Path.eq_here_of_parent?_eq_none {p : Path} (habs : p.isAbsolute = true) (h : p.parent? = none) :
    ∀ c ∈ p.parts, c = .here := by
  intro c hc
  obtain ⟨b, hb, hbc⟩ := List.mem_filterMap.1 hc
  have hidle : b = [] ∨ b = [dot] := by
    unfold parent? at h
    split at h
    · rw [‹p.pieces = []›] at hb
      cases hb
    · rename_i first rest hpieces
      split at h
      · rename_i hnil
        split at h
        · rename_i hfirst
          rw [hpieces, hfirst] at hb
          rcases List.mem_cons.1 hb with rfl | hb
          · exact Or.inl rfl
          · rw [dropIdle, List.reverse_eq_nil_iff, List.dropWhile_eq_nil_iff] at hnil
            simpa using hnil b (List.mem_reverse.2 hb)
        · cases h
      · rw [if_pos habs] at h
        cases h
  rcases hidle with rfl | rfl
  · cases hbc
  · exact (Option.some.inj hbc).symm

namespace FileSystem

variable {fs : FileSystem} {current : Place} {path : Path} {atEnd : Bool}

/-- **A path from the root leads to the same entry from every directory.** -/
theorem find_of_isAbsolute (h : path.isAbsolute = true) (p q : Place) :
    fs.find p path atEnd = fs.find q path atEnd := by
  rw [find, find, Path.route_of_isAbsolute h, follow_root_cons, follow_root_cons]

theorem readText_of_isAbsolute (h : path.isAbsolute = true) (p q : Place) :
    fs.readText p path = fs.readText q path := by
  have hread : fs.read p path = fs.read q path := by rw [read, read, find_of_isAbsolute h p q]
  rw [readText, readText, hread]

theorem follow_here {moves : List Component} {links : Nat} (h : ∀ c ∈ moves, c = .here) :
    fs.follow atEnd links .root moves = .ok (.root, .directory) := by
  induction moves with
  | nil => exact follow_nil rfl
  | cons c moves ih =>
    obtain rfl := h c List.mem_cons_self
    rw [follow_here_cons rfl]
    exact ih fun c hc => h c (List.mem_cons_of_mem _ hc)

theorem isAbsolute_parent_of_readText {text : String} (habs : path.isAbsolute = true)
    (h : fs.readText current path = .ok text) : (path.parent?.getD ⟨[]⟩).isAbsolute = true := by
  cases hp : path.parent? with
  | some around => exact (Path.isAbsolute_parent? hp).trans habs
  | none =>
    have hhere : ∀ c ∈ path.parts ++ (if path.endsInSlash then [.here] else []), c = .here := by
      intro c hc
      rcases List.mem_append.1 hc with hc | hc
      · exact Path.eq_here_of_parent?_eq_none habs hp c hc
      · split at hc
        · exact List.mem_singleton.1 hc
        · cases hc
    have hread : ∃ x, fs.read current path = .error x := by
      rw [read, find]
      cases pathFault? path with
      | some x => exact ⟨x, rfl⟩
      | none =>
        rw [Path.route_of_isAbsolute habs, follow_root_cons]
        dsimp only
        rw [follow_here hhere]
        exact ⟨_, rfl⟩
    obtain ⟨x, hx⟩ := hread
    rw [readText, hx] at h
    cases h

end FileSystem

end GrammarBatch
