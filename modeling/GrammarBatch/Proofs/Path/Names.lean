import GrammarBatch.Discovery.Scan
import GrammarBatch.Proofs.Glob.Pattern
import GrammarBatch.Proofs.Text.Utf8
import Mathlib.Data.List.Basic

/-!
# Paths made of names

* `Component.ofPiece?_bytes`, `Path.parts_ofPieces`: parts joined by slashes, which can be read off again;
* `Path.bytes_ofNames_cons`, `Path.ofNames_injective`: names joined by slashes, and nothing lost by it;
* `Path.join_injective`: relative paths read from one directory stay apart;
* `Path.segmentsOf_display_ofNames`, `Path.isRooted_display_ofNames`: the segments that a pattern sees;
* `GrammarPath.names_injective`, `GrammarPath.toPath_eq`: a grammar path is its names;
* the order of names, which is total and tells all names apart.
-/

namespace GrammarBatch

/-! ## Names -/

namespace Name

theorem bytes_injective {m n : Name} (h : m.bytes = n.bytes) : m = n := by
  cases m
  cases n
  cases h
  rfl

theorem bytes_ne_nil (n : Name) : n.bytes ≠ [] := n.isName.1

theorem slash_notMem (n : Name) : slash ∉ n.bytes := n.isName.2.1

instance : Std.TransOrd Name := inferInstanceAs (Std.TransCmp (compareOn bytes))

instance : Std.LawfulEqOrd Name where
  compare_self {a} := Std.ReflOrd.compare_self (a := a.bytes)
  eq_of_compare h := bytes_injective (Std.LawfulEqOrd.eq_of_compare h)

end Name

/-! ## The text of parts -/

namespace Component

variable {c : Component}

theorem bytes_ne_nil (c : Component) : c.bytes ≠ [] := by
  cases c with
  | name n => exact n.bytes_ne_nil
  | _ => nofun

theorem slash_notMem_bytes (hc : c ≠ .root) : slash ∉ c.bytes := by
  cases c with
  | root => exact absurd rfl hc
  | name n => exact n.slash_notMem
  | _ => decide

/-- Between slashes no part is the root. -/
theorem ofPiece?_ne_root (b : Bytes) : ofPiece? b ≠ some .root := by
  unfold ofPiece?
  split_ifs <;> simp

/-- The part can be read off its text again. -/
theorem ofPiece?_bytes (hc : c ≠ .root) : ofPiece? c.bytes = some c := by
  cases c with
  | root => exact absurd rfl hc
  | name n =>
    obtain ⟨hnil, -, hdot, hup⟩ := n.isName
    have hn : Name.ofBytes? n.bytes = some n := dif_pos n.isName
    rw [ofPiece?, bytes, if_neg hnil, if_neg hdot, if_neg hup, hn]
    rfl
  | _ => rfl

end Component

namespace Path

section Pieces

variable {parts : List Component} (h : ∀ c ∈ parts, c ≠ .root)

include h

theorem splitOn_bytes_ofPieces (hne : parts ≠ []) :
    (ofPieces (parts.map Component.bytes)).bytes.splitOn slash = parts.map Component.bytes := by
  refine List.splitOn_intercalate slash (fun b hb => ?_) (by simpa using hne)
  obtain ⟨c, hc, rfl⟩ := List.mem_map.1 hb
  exact Component.slash_notMem_bytes (h c hc)

theorem nil_notMem_splitOn (hne : parts ≠ []) :
    [] ∉ (ofPieces (parts.map Component.bytes)).bytes.splitOn slash := by
  rw [splitOn_bytes_ofPieces h hne]
  intro hm
  obtain ⟨c, -, hc⟩ := List.mem_map.1 hm
  exact c.bytes_ne_nil hc

theorem exists_bytes_ofPieces (hne : parts ≠ []) :
    ∃ b rest, (ofPieces (parts.map Component.bytes)).bytes = b :: rest ∧ b ≠ slash := by
  have hnil := nil_notMem_splitOn h hne
  cases hb : (ofPieces (parts.map Component.bytes)).bytes with
  | nil => exact absurd (by rw [hb]; exact List.mem_cons_self) hnil
  | cons b rest =>
    refine ⟨b, rest, rfl, ?_⟩
    rintro rfl
    rw [hb, List.splitOn_cons_eq_if_modifyHead, if_pos (beq_self_eq_true slash)] at hnil
    exact hnil List.mem_cons_self

theorem isAbsolute_ofPieces : (ofPieces (parts.map Component.bytes)).isAbsolute = false := by
  by_cases hne : parts = []
  · subst hne
    rfl
  · obtain ⟨b, rest, hb, hslash⟩ := exists_bytes_ofPieces h hne
    rw [isAbsolute, hb]
    simpa using hslash

theorem endsInSlash_ofPieces : (ofPieces (parts.map Component.bytes)).endsInSlash = false := by
  by_cases hne : parts = []
  · subst hne
    rfl
  · have hnil := nil_notMem_splitOn h hne
    rw [Bool.eq_false_iff]
    intro hs
    obtain ⟨before, hb⟩ := List.getLast?_eq_some_iff.1 (beq_iff_eq.1 hs)
    rw [hb, List.splitOn_append_cons_self] at hnil
    exact hnil (by simp)

theorem parts_ofPieces : (ofPieces (parts.map Component.bytes)).parts = parts := by
  by_cases hne : parts = []
  · subst hne
    rfl
  · have hsome : ∀ c ∈ parts, (Component.ofPiece? ∘ Component.bytes) c = some c :=
      fun c hc => Component.ofPiece?_bytes (h c hc)
    rw [Path.parts, pieces, splitOn_bytes_ofPieces h hne, List.filterMap_map, List.filterMap_congr hsome,
      List.filterMap_some]

end Pieces

/-! ## Names joined by slashes -/

theorem ofNames_eq (names : List Name) : ofNames names = ofPieces ((names.map .name).map Component.bytes) := by
  rw [ofNames, List.map_map]
  rfl

theorem name_ne_root (names : List Name) : ∀ c ∈ names.map Component.name, c ≠ .root := by simp

@[simp] theorem bytes_ofNames_nil : (ofNames []).bytes = [] := rfl

theorem bytes_ofNames_singleton (n : Name) : (ofNames [n]).bytes = n.bytes := by
  simp [ofNames, ofPieces]

theorem bytes_ofPieces_cons (b : Bytes) {pieces : List Bytes} (h : pieces ≠ []) :
    (ofPieces (b :: pieces)).bytes = b ++ slash :: (ofPieces pieces).bytes := by
  simp [ofPieces, List.intercalate_cons_of_ne_nil h]

theorem bytes_ofPieces_append {front rest : List Bytes} (hf : front ≠ []) (hr : rest ≠ []) :
    (ofPieces (front ++ rest)).bytes = (ofPieces front).bytes ++ slash :: (ofPieces rest).bytes := by
  induction front with
  | nil => exact absurd rfl hf
  | cons b front ih =>
    rw [List.cons_append, bytes_ofPieces_cons b (List.append_ne_nil_of_right_ne_nil front hr)]
    by_cases hn : front = []
    · subst hn
      simp [ofPieces]
    · rw [ih hn, bytes_ofPieces_cons b hn, List.append_assoc, List.cons_append]

theorem bytes_ofNames_cons (n : Name) {names : List Name} (h : names ≠ []) :
    (ofNames (n :: names)).bytes = n.bytes ++ slash :: (ofNames names).bytes :=
  bytes_ofPieces_cons n.bytes (by simpa using h)

theorem bytes_ofNames_concat {names : List Name} (h : names ≠ []) (n : Name) :
    (ofNames (names ++ [n])).bytes = (ofNames names).bytes ++ slash :: n.bytes := by
  rw [ofNames, List.map_append, bytes_ofPieces_append (by simpa using h) (by simp), ← ofNames]
  simp [ofPieces]

/-- The names can be read off the path again. -/
theorem splitOn_bytes_ofNames {names : List Name} (h : names ≠ []) :
    (ofNames names).bytes.splitOn slash = names.map (·.bytes) := by
  rw [ofNames_eq, splitOn_bytes_ofPieces (name_ne_root names) (by simpa using h), List.map_map]
  rfl

theorem bytes_ofNames_eq_nil_iff {names : List Name} : (ofNames names).bytes = [] ↔ names = [] := by
  cases names with
  | nil => simp
  | cons n names =>
    by_cases hn : names = []
    · subst hn
      simp [bytes_ofNames_singleton, n.bytes_ne_nil]
    · simp [bytes_ofNames_cons n hn]

theorem ofNames_injective {a b : List Name} (h : ofNames a = ofNames b) : a = b := by
  have hb : (ofNames a).bytes = (ofNames b).bytes := congrArg bytes h
  by_cases ha : a = []
  · subst ha
    exact (bytes_ofNames_eq_nil_iff.1 hb.symm).symm
  · have hb' : b ≠ [] := fun hn => ha (bytes_ofNames_eq_nil_iff.1 (by rw [hb, hn]; rfl))
    have hs := congrArg (List.splitOn slash) hb
    rw [splitOn_bytes_ofNames ha, splitOn_bytes_ofNames hb'] at hs
    exact List.map_injective_iff.2 (fun _ _ => Name.bytes_injective) hs

theorem isAbsolute_ofNames (names : List Name) : (ofNames names).isAbsolute = false := by
  rw [ofNames_eq]
  exact isAbsolute_ofPieces (name_ne_root names)

theorem isAbsolute_name (n : Name) : isAbsolute ⟨n.bytes⟩ = false := by
  have h := isAbsolute_ofNames [n]
  rwa [isAbsolute, bytes_ofNames_singleton] at h

theorem endsInSlash_ofNames (names : List Name) : (ofNames names).endsInSlash = false := by
  rw [ofNames_eq]
  exact endsInSlash_ofPieces (name_ne_root names)

/-- Two relative paths read from one directory are different paths if they are different. -/
theorem join_injective {root p q : Path} (hp : p.isAbsolute = false) (hq : q.isAbsolute = false)
    (h : root.join p = root.join q) : p = q := by
  obtain ⟨p⟩ := p
  obtain ⟨q⟩ := q
  unfold join at h
  simp only [hp, hq, Bool.false_eq_true, if_false] at h
  split at h
  · simpa using h
  · simpa using h

theorem join_ofNames_injective {root : Path} {a b : List Name}
    (h : root.join (ofNames a) = root.join (ofNames b)) : a = b :=
  ofNames_injective (join_injective (isAbsolute_ofNames a) (isAbsolute_ofNames b) h)

theorem join_ofNames_ne_self (root : Path) {names : List Name} (h : names ≠ []) :
    root.join (ofNames names) ≠ root := by
  intro he
  have hb := congrArg bytes he
  unfold join at hb
  simp only [isAbsolute_ofNames, Bool.false_eq_true, if_false] at hb
  have hn : (ofNames names).bytes ≠ [] := fun hn => h (bytes_ofNames_eq_nil_iff.1 hn)
  split at hb
  · exact hn (by simpa using hb)
  · simp at hb

end Path

/-! ## Names as a pattern sees them -/

/-- The byte `\`. -/
def backslash : UInt8 := 0x5C

theorem isSeparator_iff {c : Char} : isSeparator c = true ↔ c = '/' ∨ c = '\\' := by
  simp [isSeparator]

theorem isSeparator_of_le {c : Char} (hc : 0x80 ≤ c.toNat) : isSeparator c = false := by
  rw [Bool.eq_false_iff, ne_eq, isSeparator_iff]
  rintro (rfl | rfl) <;> exact absurd hc (by decide)

theorem isSeparator_ofNat {b : UInt8} (hb : b < 0x80) :
    isSeparator (Char.ofNat b.toNat) = true ↔ b = slash ∨ b = backslash := by
  rw [isSeparator_iff, Utf8.ofNat_byte_eq_iff hb (by decide), Utf8.ofNat_byte_eq_iff hb (by decide)]
  rfl

theorem Name.toList_display (n : Name) : n.display.toList = Utf8.lossy .rest n.bytes := String.toList_ofList

/-- A text shown for bytes is rooted only if its first byte is a separator. -/
theorem isRooted_lossy (bytes : Bytes) : isRooted (Utf8.lossy .rest bytes) = true ↔
    bytes.head? = some slash ∨ bytes.head? = some backslash := by
  cases bytes with
  | nil => simp [Utf8.lossy, Utf8.finish, isRooted]
  | cons b bytes =>
    rw [List.head?_cons, Option.some.injEq, Option.some.injEq]
    by_cases hb : b < 0x80
    · rw [Utf8.lossy_cons_of_lt hb, isRooted, List.head?_cons, Option.any_some, isSeparator_ofNat hb]
    · obtain ⟨c, cs, he, hc⟩ := Utf8.exists_lossy_cons_of_not_lt hb bytes
      rw [he, isRooted, List.head?_cons, Option.any_some, isSeparator_of_le hc]
      constructor
      · intro h
        cases h
      · intro h
        rcases h with h | h
        · exact absurd (by rw [h]; decide) hb
        · exact absurd (by rw [h]; decide) hb

namespace Path

theorem toList_display (p : Path) : p.display.toList = Utf8.lossy .rest p.bytes := String.toList_ofList

/-- The segments of a path made of names are those of its names, one name after another. -/
theorem segmentsOf_display_ofNames (names : List Name) : segmentsOf (ofNames names).display.toList =
    names.flatMap fun n => segmentsOf n.display.toList := by
  induction names with
  | nil => rfl
  | cons n names ih =>
    by_cases hn : names = []
    · subst hn
      rw [toList_display, bytes_ofNames_singleton, List.flatMap_singleton, Name.toList_display]
    · rw [toList_display, bytes_ofNames_cons n hn,
        Utf8.lossy_append_cons Utf8.sound_rest n.bytes _ (by decide), segmentsOf_append_cons _ _ (by decide),
        ← toList_display, ih, List.flatMap_cons, Name.toList_display]

theorem isRooted_display_ofNames {n : Name} {names : List Name} :
    isRooted (ofNames (n :: names)).display.toList = true ↔ n.bytes.head? = some backslash := by
  obtain ⟨b, bs, hb⟩ := List.exists_cons_of_ne_nil n.bytes_ne_nil
  have hhead : (ofNames (n :: names)).bytes.head? = some b := by
    by_cases hn : names = []
    · subst hn
      rw [bytes_ofNames_singleton, hb, List.head?_cons]
    · rw [bytes_ofNames_cons n hn, hb, List.cons_append, List.head?_cons]
  have hslash : b ≠ slash := by
    rintro rfl
    exact n.slash_notMem (by rw [hb]; exact List.mem_cons_self)
  rw [toList_display, isRooted_lossy, hhead, hb, List.head?_cons, Option.some.injEq]
  exact or_iff_right hslash

end Path

/-- A name without backslashes is one segment. -/
theorem Name.segmentsOf_display {n : Name} (h : backslash ∉ n.bytes) :
    segmentsOf n.display.toList = [n.display.toList] := by
  refine segmentsOf_eq_singleton ?_ fun c hc => ?_
  · obtain ⟨b, bs, hb⟩ := List.exists_cons_of_ne_nil n.bytes_ne_nil
    rw [toList_display, hb]
    by_cases hlt : b < 0x80
    · rw [Utf8.lossy_cons_of_lt hlt]
      exact List.cons_ne_nil _ _
    · obtain ⟨c, cs, he, -⟩ := Utf8.exists_lossy_cons_of_not_lt hlt bs
      rw [he]
      exact List.cons_ne_nil _ _
  · by_cases hlt : c.toNat < 0x80
    · rw [toList_display] at hc
      obtain ⟨b, hb, hb80, rfl⟩ := Utf8.mem_lossy Utf8.sound_rest hc hlt
      rw [Bool.eq_false_iff, ne_eq, isSeparator_ofNat hb80]
      rintro (rfl | rfl)
      · exact n.slash_notMem hb
      · exact h hb
    · exact isSeparator_of_le (Nat.le_of_not_lt hlt)

/-! ## Grammar paths -/

namespace GrammarPath

theorem ofNames?_names (g : GrammarPath) : ofNames? g.names = some g := by
  simp [ofNames?, names]

theorem ofNames?_eq_some_iff {names : List Name} {g : GrammarPath} :
    ofNames? names = some g ↔ names = g.names := by
  constructor
  · intro h
    obtain ⟨n, hn, rfl⟩ := Option.map_eq_some_iff.1 h
    obtain ⟨front, rfl⟩ := List.getLast?_eq_some_iff.1 hn
    simp [GrammarPath.names]
  · rintro rfl
    exact ofNames?_names g

theorem names_injective {g h : GrammarPath} (he : g.names = h.names) : g = h := by
  have := ofNames?_names g
  rw [he, ofNames?_names] at this
  exact (Option.some.inj this).symm

theorem exists_names {names : List Name} (h : names ≠ []) : ∃ g : GrammarPath, g.names = names :=
  ⟨⟨names.dropLast, names.getLast h⟩, List.dropLast_concat_getLast h⟩

/-- The path of a grammar is made of its names. -/
theorem toPath_eq (g : GrammarPath) : g.toPath = Path.ofNames g.names := by
  obtain ⟨folders, fileName⟩ := g
  have hrel : Path.isAbsolute ⟨fileName.bytes⟩ = false := Path.isAbsolute_name fileName
  by_cases hf : folders = []
  · subst hf
    rw [names, List.nil_append, toPath, folder, Path.join, if_neg (by simp [hrel]),
      if_pos (Or.inl Path.bytes_ofNames_nil), Path.bytes_ofNames_nil, List.nil_append,
      ← Path.bytes_ofNames_singleton]
  · have hb : ¬((Path.ofNames folders).bytes = [] ∨ (Path.ofNames folders).endsInSlash = true) := by
      simp [Path.bytes_ofNames_eq_nil_iff, hf, Path.endsInSlash_ofNames]
    rw [names, toPath, folder, Path.join, if_neg (by simp [hrel]), if_neg hb,
      ← Path.bytes_ofNames_concat hf]

end GrammarPath

end GrammarBatch
