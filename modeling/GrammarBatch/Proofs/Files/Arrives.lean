import GrammarBatch.Proofs.Files.Folders

/-!
# Paths that lead somewhere

* `FileSystem.Arrives`: the moves that lead to an entry, one after the other;
* `FileSystem.follow_eq_ok_iff`, `FileSystem.find_eq_ok_iff`: they are those that are followed to it.
-/

namespace GrammarBatch.FileSystem

variable {fs : FileSystem} {current d p : Place} {path : Path} {e : Entry} {links : Nat} {moves : List Component}

/-- The moves from a place lead to the entry `e` at the place `d`, over `links` links at most. -/
inductive Arrives (fs : FileSystem) (d : Place) (e : Entry) :
    (links : Nat) → (p : Place) → (moves : List Component) → Prop where
  | done {links : Nat} (h : fs.get? d = some e) : Arrives fs d e links d []
  | root {links : Nat} {p : Place} {moves : List Component} (h : Arrives fs d e links .root moves) :
    Arrives fs d e links p (.root :: moves)
  | here {links : Nat} {p : Place} {moves : List Component} (hd : fs.isDirectoryAt p = true)
    (h : Arrives fs d e links p moves) : Arrives fs d e links p (.here :: moves)
  | up {links : Nat} {p : Place} {moves : List Component} (hd : fs.isDirectoryAt p = true)
    (h : Arrives fs d e links (fs.around p.names) moves) : Arrives fs d e links p (.up :: moves)
  | name {links : Nat} {p : Place} {n : Name} {moves : List Component} {e' : Entry}
    (hd : fs.isDirectoryAt p = true) (hn : ¬ maxName < n.bytes.length) (hg : fs.get? (p.child n) = some e')
    (hl : ∀ target, e' = .link target → False) (h : Arrives fs d e links (p.child n) moves) :
    Arrives fs d e links p (.name n :: moves)
  | link {links : Nat} {p : Place} {n : Name} {moves : List Component} {target : Path}
    (hd : fs.isDirectoryAt p = true) (hn : ¬ maxName < n.bytes.length)
    (hg : fs.get? (p.child n) = some (.link target)) (h : Arrives fs d e links p (target.route ++ moves)) :
    Arrives fs d e (links + 1) p (.name n :: moves)

/-- **Moves lead to what is found when they are followed.** -/
theorem follow_eq_ok_iff : fs.follow true links p moves = .ok (d, e) ↔ fs.Arrives d e links p moves := by
  constructor
  · intro hf
    fun_induction follow fs true links p moves with
    | case1 links p e hp =>
      cases hf
      exact .done hp
    | case3 links p moves ih => exact .root (ih hf)
    | case4 links p moves hd ih => exact .here hd (ih hf)
    | case6 links p moves hd ih => exact .up hd (ih hf)
    | case11 links p n moves hd hn target hg hm => cases hm.2
    | case13 p n moves hd hn target hg hm links ih => exact .link (by simpa using hd) hn hg (ih hf)
    | case14 links p n moves hd hn e hl hg ih => exact .name (by simpa using hd) hn hg hl (ih hf)
    | _ => cases hf
  · intro h
    induction h with
    | done h => exact follow_nil h
    | root _ ih => rw [follow_root_cons, ih]
    | here hd _ ih => rw [follow_here_cons hd, ih]
    | up hd _ ih => rw [follow_up_cons hd, ih]
    | name hd hn hg hl _ ih => rw [follow_name_cons hd hn hg hl, ih]
    | link hd hn hg _ ih => rw [follow_link_cons hd hn hg (fun hm => Bool.noConfusion hm.2), ih]

theorem find_eq_ok_iff : fs.find current path true = .ok (d, e) ↔
    pathFault? path = none ∧ fs.Arrives d e maxLinks current path.route := by
  rw [find, ← follow_eq_ok_iff]
  cases pathFault? path with
  | none => simp
  | some x => simp

end GrammarBatch.FileSystem
