import GrammarBatch.Proofs.Path.Names
import Mathlib.Data.List.Basic

/-!
# The parts of a path

* `Path.components_eq`: the parts of a path, with the one that its spelling begins with in front;
* `Path.components_join_ofNames`: names read from a directory are parts behind those of the directory,
  however the directory is spelled;
* `Path.compare_join_ofNames`: so paths below one directory are in the order of their names;
* `GrammarPath.between?_join`, `GrammarPath.ofFile_inDirectory`: a grammar below a directory has its grammar
  path back;
* `Path.rest?`, `Path.rest?_join`: what is left of a path without the directory in front of it.
-/

namespace GrammarBatch

/-! ## The order of parts -/

instance : Std.TransOrd Component where
  eq_swap {a b} := by
    cases a <;> cases b <;> first | exact (Std.OrientedOrd.eq_swap : compare (_ : Name) _ = _) | rfl
  isLE_trans {a b c} hab hbc := by
    cases a <;> cases b <;> cases c <;>
      first
      | exact (Std.TransOrd.isLE_trans hab hbc : (compare (_ : Name) _).isLE = true)
      | rfl
      | exact absurd hab Bool.false_ne_true
      | exact absurd hbc Bool.false_ne_true

instance : Std.LawfulEqOrd Component where
  compare_self {a} := by
    cases a <;> first | exact (Std.ReflOrd.compare_self : compare (_ : Name) _ = _) | rfl
  eq_of_compare {a b} h := by
    cases a <;> cases b <;>
      first | exact congrArg Component.name (Std.LawfulEqOrd.eq_of_compare h) | rfl | cases h

theorem compare_append_left {α : Type} [Ord α] [Std.ReflOrd α] (front a b : List α) :
    compare (front ++ a) (front ++ b) = compare a b := by
  induction front with
  | nil => rfl
  | cons x front ih =>
    rw [List.cons_append, List.cons_append, List.compare_cons_cons, Std.ReflOrd.compare_self, ih]
    rfl

theorem compare_map_name (a b : List Name) :
    compare (a.map Component.name) (b.map Component.name) = compare a b := by
  induction a generalizing b with
  | nil => cases b <;> rfl
  | cons m a ih =>
    cases b with
    | nil => rfl
    | cons n b =>
      rw [List.map_cons, List.map_cons, List.compare_cons_cons, List.compare_cons_cons, ih]
      rfl

namespace Path

variable {p q r root : Path} {names : List Name}

/-! ## Pieces and parts -/

/-- The part that the spelling of the path begins with and that no piece of its own stands for. -/
def start (p : Path) : List Component :=
  if p.isAbsolute then [.root] else if p.pieces.head? = some [dot] then [.here] else []

theorem pieces_slash_cons (bytes : Bytes) : (⟨slash :: bytes⟩ : Path).pieces = [] :: (⟨bytes⟩ : Path).pieces :=
  List.splitOn_append_cons_self [] bytes

theorem components_eq (p : Path) : p.components = p.start ++ p.parts.filter (· != .here) := by
  unfold components start
  by_cases ha : p.isAbsolute = true
  · simp [ha]
  · rw [if_neg ha, if_neg ha]
    cases hp : p.pieces with
    | nil => exact absurd hp (List.splitOn_ne_nil _ _)
    | cons first rest => by_cases hf : first = [dot] <;> simp [hf]

/-- A relative path is put behind the pieces of the directory, of which an empty one at the end goes. -/
theorem exists_pieces_join (hp : p.bytes ≠ []) (hq : q.isAbsolute = false) : ∃ front, front ≠ [] ∧
    (p.pieces = front ∨ p.pieces = front ++ [[]]) ∧ (p.join q).pieces = front ++ q.pieces := by
  have hrel : ¬ q.isAbsolute = true := by simp [hq]
  by_cases hs : p.endsInSlash = true
  · obtain ⟨before, hb⟩ := List.getLast?_eq_some_iff.1 (beq_iff_eq.1 hs)
    refine ⟨before.splitOn slash, List.splitOn_ne_nil _ _, Or.inr ?_, ?_⟩
    · rw [pieces, hb, List.splitOn_append_cons_self, List.splitOn_nil]
    · rw [join, if_neg hrel, if_pos (Or.inr hs), pieces, hb, List.append_assoc, List.singleton_append,
        List.splitOn_append_cons_self]
      rfl
  · refine ⟨p.pieces, List.splitOn_ne_nil _ _, Or.inl rfl, ?_⟩
    rw [join, if_neg hrel, if_neg (by simp [hp, hs]), pieces, List.splitOn_append_cons_self]
    rfl

theorem isAbsolute_join_eq (hp : p.bytes ≠ []) (hq : q.isAbsolute = false) :
    (p.join q).isAbsolute = p.isAbsolute := by
  obtain ⟨b, bs, hb⟩ := List.exists_cons_of_ne_nil hp
  unfold join isAbsolute at *
  by_cases hs : p.endsInSlash = true <;> simp [hq, hs, hb]

theorem start_join (hp : p.bytes ≠ []) (hq : q.isAbsolute = false) : (p.join q).start = p.start := by
  obtain ⟨front, hne, hfront, hjoin⟩ := exists_pieces_join hp hq
  obtain ⟨first, rest, rfl⟩ := List.exists_cons_of_ne_nil hne
  have hhead : (p.join q).pieces.head? = p.pieces.head? := by
    rcases hfront with h | h <;> rw [hjoin, h] <;> rfl
  rw [start, start, isAbsolute_join_eq hp hq, hhead]

theorem parts_join (hp : p.bytes ≠ []) (hq : q.isAbsolute = false) :
    (p.join q).parts = p.parts ++ q.parts := by
  obtain ⟨front, -, hfront, hjoin⟩ := exists_pieces_join hp hq
  rcases hfront with h | h <;> simp [parts, hjoin, h, Component.ofPiece?]

theorem components_join (hp : p.bytes ≠ []) (hq : q.isAbsolute = false) :
    (p.join q).components = p.components ++ q.parts.filter (· != .here) := by
  rw [components_eq, components_eq, start_join hp hq, parts_join hp hq, List.filter_append, List.append_assoc]

theorem parts_ofNames (names : List Name) : (ofNames names).parts = names.map .name := by
  rw [ofNames_eq]
  exact parts_ofPieces (name_ne_root names)

theorem components_ofNames (names : List Name) : (ofNames names).components = names.map .name := by
  have hstart : (ofNames names).start = [] := by
    by_cases hn : names = []
    · subst hn
      rfl
    · obtain ⟨n, rest, rfl⟩ := List.exists_cons_of_ne_nil hn
      rw [start, isAbsolute_ofNames, pieces, splitOn_bytes_ofNames hn]
      simp [n.isName.2.2.1]
  rw [components_eq, hstart, parts_ofNames, List.nil_append, List.filter_eq_self.2]
  simp

theorem join_of_bytes_eq_nil (h : p.bytes = []) : p.join q = q := by
  by_cases hq : q.isAbsolute = true <;> simp [join, hq, h]

/-- **Names read from a directory are parts behind those of the directory, however it is spelled.** -/
theorem components_join_ofNames (root : Path) (names : List Name) :
    (root.join (ofNames names)).components = root.components ++ names.map .name := by
  by_cases hr : root.bytes = []
  · have hempty : root = ⟨[]⟩ := congrArg Path.mk hr
    rw [join_of_bytes_eq_nil hr, components_ofNames, hempty]
    rfl
  · have hkeep : (names.map Component.name).filter (· != .here) = names.map .name := by
      rw [List.filter_eq_self.2]
      simp
    rw [components_join hr (isAbsolute_ofNames names), parts_ofNames, hkeep]

/-- Paths below one directory are in the order of their names. -/
theorem compare_join_ofNames (root : Path) (a b : List Name) :
    (root.join (ofNames a)).compare (root.join (ofNames b)) = Ord.compare a b := by
  rw [compare, components_join_ofNames, components_join_ofNames, compare_append_left, compare_map_name]

/-! ## Reading a path from a path -/

/-- What stands between a directory and a relative path that is read from it. -/
def gap (p : Path) : Bytes := if p.bytes = [] ∨ p.endsInSlash then [] else [slash]

theorem bytes_join (p : Path) (hq : q.isAbsolute = false) : (p.join q).bytes = p.bytes ++ p.gap ++ q.bytes := by
  rw [join, gap, if_neg (by simp [hq])]
  split <;> simp

theorem endsInSlash_join (p : Path) (hne : q.bytes ≠ []) (hq : q.isAbsolute = false) :
    (p.join q).endsInSlash = q.endsInSlash := by
  rw [endsInSlash, endsInSlash, bytes_join p hq, List.getLast?_append_of_ne_nil _ hne]

theorem gap_join (p : Path) (hne : q.bytes ≠ []) (hq : q.isAbsolute = false) : (p.join q).gap = q.gap := by
  have hnil : (p.join q).bytes ≠ [] := by simp [bytes_join p hq, hne]
  simp [gap, hnil, hne, endsInSlash_join p hne hq]

theorem join_join (p : Path) (hne : q.bytes ≠ []) (hq : q.isAbsolute = false) (hr : r.isAbsolute = false) :
    (p.join q).join r = p.join (q.join r) := by
  have hqr : (q.join r).isAbsolute = false := (isAbsolute_join_eq hne hr).trans hq
  have hbytes : ((p.join q).join r).bytes = (p.join (q.join r)).bytes := by
    rw [bytes_join _ hr, bytes_join p hq, gap_join p hne hq, bytes_join p hqr, bytes_join q hr]
    simp only [List.append_assoc]
  exact congrArg Path.mk hbytes

/-! ## What is left of a path -/

/-- The piece spells no part of a longer path. -/
def isIdle (b : Bytes) : Bool := b = [] ∨ b = [dot]

/-- The pieces after those that spell the first `count` parts, without idle ones in front. -/
def dropParts (count : Nat) : List Bytes → List Bytes
  | [] => []
  | b :: bs =>
    if isIdle b then dropParts count bs
    else match count with
      | 0 => b :: bs
      | count + 1 => dropParts count bs

/-- The path as it is written, up to its last part. -/
def upToLast (p : Path) : Path :=
  match p.pieces with
  | [] => p
  | first :: rest =>
    if p.isAbsolute then ⟨slash :: (ofPieces (dropIdle rest)).bytes⟩ else ofPieces (first :: dropIdle rest)

/-- What is left of `file`, as it is written there, after the parts of `root`; `none` unless it begins with
them. -/
def rest? (root file : Path) : Option Path :=
  if root.bytes = [] then some file.upToLast
  else if root.components.isPrefixOf file.components then
    some (ofPieces (dropIdle (dropParts (root.pieces.countP (!isIdle ·)) file.pieces)))
  else none

theorem isIdle_name (n : Name) : isIdle n.bytes = false := by
  simp [isIdle, n.isName.1, n.isName.2.2.1]

theorem dropIdle_of_forall {pieces : List Bytes} (h : ∀ b ∈ pieces, isIdle b = false) :
    dropIdle pieces = pieces := by
  rw [dropIdle, List.dropWhile_eq_self_iff.2, List.reverse_reverse]
  intro hl
  have hm := h _ (List.mem_reverse.1 (List.getElem_mem hl))
  simpa [isIdle] using hm

theorem dropIdle_map_bytes (names : List Name) : dropIdle (names.map (·.bytes)) = names.map (·.bytes) := by
  refine dropIdle_of_forall fun b hb => ?_
  obtain ⟨n, -, rfl⟩ := List.mem_map.1 hb
  exact isIdle_name n

/-- The pieces of a directory are gone with its parts. -/
theorem dropParts_append (front bs : List Bytes) :
    dropParts (front.countP (!isIdle ·)) (front ++ bs) = dropParts 0 bs := by
  induction front with
  | nil => rfl
  | cons b front ih =>
    by_cases hb : isIdle b = true
    · simp [dropParts, hb, ih]
    · simp [dropParts, hb, ih]

theorem dropParts_zero_map_bytes (names : List Name) :
    dropParts 0 (names.map (·.bytes)) = names.map (·.bytes) := by
  cases names with
  | nil => rfl
  | cons n names => simp [dropParts, isIdle_name]

theorem upToLast_ofNames {names : List Name} (h : names ≠ []) : (ofNames names).upToLast = ofNames names := by
  obtain ⟨n, rest, rfl⟩ := List.exists_cons_of_ne_nil h
  rw [upToLast, pieces, splitOn_bytes_ofNames h, isAbsolute_ofNames]
  simp [dropIdle_map_bytes, ofNames]

/-- **What is left of a path below a directory are the names that lead to it.** -/
theorem rest?_join (root : Path) {names : List Name} (h : names ≠ []) :
    rest? root (root.join (ofNames names)) = some (ofNames names) := by
  by_cases hr : root.bytes = []
  · rw [rest?, if_pos hr, join_of_bytes_eq_nil hr, upToLast_ofNames h]
  · have hprefix : root.components.isPrefixOf (root.join (ofNames names)).components = true := by
      rw [List.isPrefixOf_iff_prefix, components_join_ofNames]
      exact List.prefix_append _ _
    obtain ⟨front, -, hfront, hjoin⟩ := exists_pieces_join hr (isAbsolute_ofNames names)
    have hcount : root.pieces.countP (!isIdle ·) = front.countP (!isIdle ·) := by
      rcases hfront with hf | hf <;> simp [hf, isIdle]
    have hpieces : (ofNames names).pieces = names.map (·.bytes) := splitOn_bytes_ofNames h
    rw [rest?, if_neg hr, if_pos hprefix, hcount, hjoin, dropParts_append, hpieces,
      dropParts_zero_map_bytes, dropIdle_map_bytes]
    rfl

end Path

namespace GrammarPath

theorem names?_map (names : List Name) : names? (names.map .name) = some names := by
  induction names with
  | nil => rfl
  | cons n names ih => rw [List.map_cons, names?, ih, Option.map_some]

theorem between?_join (root : Path) (names : List Name) :
    between? root (root.join (.ofNames names)) = ofNames? names := by
  have hrest : root.components.isPrefixOf? (root.join (.ofNames names)).components =
      some (names.map .name) :=
    List.isPrefixOf?_eq_some_iff_append_eq.2 (Path.components_join_ofNames root names).symm
  simp [between?, hrest, names?_map]

/-- **A grammar below a directory has its grammar path back.** -/
theorem ofFile_inDirectory (root : Path) (g : GrammarPath) :
    GrammarPath.ofFile root (g.inDirectory root) = .ok g := by
  rw [ofFile, inDirectory, toPath_eq, between?_join, ofNames?_names]

theorem display_eq (g : GrammarPath) : g.display = g.toPath.display := by
  rw [toPath_eq, ← String.toList_inj]
  obtain ⟨folders, fileName⟩ := g
  by_cases hf : folders = []
  · subst hf
    simp [display, folderText, isAtRoot, names, Path.toList_display, Name.toList_display,
      Path.bytes_ofNames_singleton]
  · have hsplit := Utf8.lossy_append_cons Utf8.sound_rest (Path.ofNames folders).bytes fileName.bytes
      (b := slash) (by decide)
    have hslash : Char.ofNat slash.toNat = '/' := rfl
    simp [display, folderText, isAtRoot, folder, hf, names, Path.toList_display, Name.toList_display,
      Path.bytes_ofNames_concat, hsplit, hslash]

end GrammarPath

end GrammarBatch
