import GrammarBatch.Proofs.Config.Absolute
import GrammarBatch.Proofs.Path.Rest

/-!
# Spelling out twice

* `Path.through`, `Path.closed`: the form of every path that is spelled out, from the root through parts that
  are moves, with or without a slash at its end;
* `Path.absolute?_eq_through`, `Path.absolute?_closed`: spelling out leads to that form, and keeps it;
* **`BuildConfig.absolute_absolute`**: a configuration that is spelled out stays as it is.
-/

namespace GrammarBatch

namespace Path

variable {p q : Path} {parts : List Component}

/-! ## From the root through parts -/

/-- The path from the root, or from two slashes in front, through the parts. -/
def through (double : Bool) (parts : List Component) : Path :=
  let start : Path := if double then ⟨[slash, slash]⟩ else ⟨[slash]⟩
  if parts = [] then start else start.join (ofPieces (parts.map Component.bytes))

/-- The path with a slash at its end, if there shall be one. -/
def closed (p : Path) (atEnd : Bool) : Path := if atEnd then p.join ⟨[]⟩ else p

section Through

variable (h : ∀ c ∈ parts, c ≠ .root)

include h

theorem bytes_through (double : Bool) : (through double parts).bytes =
    (if double then [slash, slash] else [slash]) ++ (ofPieces (parts.map Component.bytes)).bytes := by
  rw [through]
  by_cases hne : parts = []
  · subst hne
    cases double <;> rfl
  · rw [if_neg hne, bytes_join _ (isAbsolute_ofPieces h)]
    cases double <;> rfl

theorem isAbsolute_through (double : Bool) : (through double parts).isAbsolute = true := by
  rw [isAbsolute, bytes_through h]
  cases double <;> rfl

theorem parts_through (double : Bool) : (through double parts).parts = parts := by
  rw [through]
  by_cases hne : parts = []
  · subst hne
    cases double <;> rfl
  · rw [if_neg hne, parts_join (by cases double <;> nofun) (isAbsolute_ofPieces h), parts_ofPieces h]
    cases double <;> rfl

theorem hasDoubleRoot_through (double : Bool) : (through double parts).hasDoubleRoot = double := by
  rw [hasDoubleRoot, bytes_through h]
  by_cases hne : parts = []
  · subst hne
    cases double <;> rfl
  · obtain ⟨b, rest, hb, hslash⟩ := exists_bytes_ofPieces h hne
    rw [hb]
    cases double <;> simp [hslash]

theorem endsInSlash_through (double : Bool) : (through double parts).endsInSlash = parts.isEmpty := by
  by_cases hne : parts = []
  · subst hne
    cases double <;> rfl
  · have hb : (ofPieces (parts.map Component.bytes)).bytes ≠ [] := by
      obtain ⟨b, rest, hb, -⟩ := exists_bytes_ofPieces h hne
      simp [hb]
    rw [endsInSlash, bytes_through h, List.getLast?_append_of_ne_nil _ hb, List.isEmpty_eq_false_iff.2 hne]
    exact endsInSlash_ofPieces h

end Through

theorem bytes_closed (p : Path) (atEnd : Bool) :
    (p.closed atEnd).bytes = p.bytes ++ if atEnd then p.gap else [] := by
  cases atEnd with
  | false => exact (List.append_nil _).symm
  | true => exact (bytes_join p rfl).trans (List.append_nil _)

theorem endsInSlash_closed (hp : p.bytes ≠ []) (atEnd : Bool) :
    (p.closed atEnd).endsInSlash = (atEnd || p.endsInSlash) := by
  cases atEnd with
  | false => rfl
  | true =>
    rw [endsInSlash, bytes_closed, if_pos rfl, gap]
    by_cases hs : p.endsInSlash = true
    · rw [if_pos (Or.inr hs), List.append_nil]
      exact hs
    · rw [if_neg (by simp [hp, hs]), List.getLast?_concat]
      rfl

theorem closed_of_endsInSlash (h : p.endsInSlash = true) (atEnd : Bool) : p.closed atEnd = p := by
  refine congrArg Path.mk (?_ : (p.closed atEnd).bytes = p.bytes)
  rw [bytes_closed, gap, if_pos (Or.inr h), ite_self, List.append_nil]

theorem parts_closed (hp : p.bytes ≠ []) (atEnd : Bool) : (p.closed atEnd).parts = p.parts := by
  cases atEnd with
  | false => rfl
  | true =>
    rw [closed, if_pos rfl, parts_join hp rfl]
    exact List.append_nil _

theorem hasDoubleRoot_closed (h : ∀ c ∈ parts, c ≠ .root) (double atEnd : Bool) :
    ((through double parts).closed atEnd).hasDoubleRoot = double := by
  by_cases hne : parts = []
  · have hs : (through double parts).endsInSlash = true := by rw [endsInSlash_through h, hne]; rfl
    rw [closed_of_endsInSlash hs, hasDoubleRoot_through h]
  · obtain ⟨b, rest, hb, hslash⟩ := exists_bytes_ofPieces h hne
    rw [hasDoubleRoot, bytes_closed, bytes_through h, hb]
    cases double <;> simp [hslash]

theorem absolute?_eq_closed (hp : p.bytes ≠ []) (current : Path) : p.absolute? current = some (closed
    (let parts := p.components.filter fun c => c != .here && c != .root
     let start := if p.hasDoubleRoot then ⟨[slash, slash]⟩ else if p.isAbsolute then ⟨[slash]⟩ else current
     if parts = [] then start else start.join (ofPieces (parts.map Component.bytes))) p.endsInSlash) := by
  rw [absolute?, if_neg hp]
  rfl

theorem join_through {a b : List Component} (ha : ∀ c ∈ a, c ≠ .root) (hb : ∀ c ∈ b, c ≠ .root)
    (hne : b ≠ []) : (through false a).join (ofPieces (b.map Component.bytes)) = through false (a ++ b) := by
  have hab : ∀ c ∈ a ++ b, c ≠ .root := fun c hc => (List.mem_append.1 hc).elim (ha c) (hb c)
  have hbytes : ((through false a).join (ofPieces (b.map Component.bytes))).bytes =
      (through false (a ++ b)).bytes := by
    rw [bytes_join _ (isAbsolute_ofPieces hb), bytes_through hab, gap, endsInSlash_through ha,
      bytes_through ha]
    by_cases hnil : a = []
    · subst hnil
      rfl
    · rw [List.isEmpty_eq_false_iff.2 hnil, List.map_append,
        bytes_ofPieces_append (by simpa using hnil) (by simpa using hne)]
      simp
  exact congrArg Path.mk hbytes

theorem toPath_eq_through (d : Place) : d.toPath = through false (d.names.reverse.map .name) := by
  have hroot : ∀ c ∈ d.names.reverse.map Component.name, c ≠ .root := by simp
  have hbytes : d.toPath.bytes = (through false (d.names.reverse.map .name)).bytes := by
    rw [bytes_through hroot, List.map_map]
    rfl
  exact congrArg Path.mk hbytes

theorem filter_components (p : Path) :
    p.components.filter (fun c => c != .here && c != .root) = spelled p.pieces := by
  have hstart : p.start.filter (fun c => c != .here && c != .root) = [] := by
    rcases start_cases p with h | ⟨c, h, rfl | rfl⟩ <;> simp [h]
  have hspelled : (spelled p.pieces).filter (fun c => c != .here && c != .root) = spelled p.pieces := by
    rw [List.filter_eq_self]
    intro c hc
    simpa using ne_of_mem_spelled hc
  rw [components_eq_spelled, List.filter_append, hstart, hspelled, List.nil_append]

theorem hasDoubleRoot_of_relative (h : p.isAbsolute = false) : p.hasDoubleRoot = false := by
  rw [Bool.eq_false_iff]
  intro hd
  rw [hasDoubleRoot] at hd
  split at hd
  · rename_i a b rest hb
    simp only [Bool.and_eq_true, beq_iff_eq] at hd
    simp [isAbsolute, hb, hd.1.1] at h
  · cases hd

/-- A path is spelled out through the names of the current directory, if it is not from the root, and its own
parts. -/
theorem absolute?_eq_through (hp : p.bytes ≠ []) (d : Place) :
    p.absolute? d.toPath = some ((through p.hasDoubleRoot
      ((if p.isAbsolute then [] else d.names.reverse.map .name) ++ spelled p.pieces)).closed p.endsInSlash) := by
  rw [absolute?_eq_closed hp, filter_components]
  dsimp only
  by_cases habs : p.isAbsolute = true
  · rw [if_pos habs, if_pos habs, List.nil_append, through]
  · have hnames : ∀ c ∈ d.names.reverse.map Component.name, c ≠ .root := by simp
    rw [hasDoubleRoot_of_relative (Bool.eq_false_iff.2 habs), if_neg Bool.false_ne_true, if_neg habs, if_neg habs,
      toPath_eq_through]
    by_cases hnil : spelled p.pieces = []
    · rw [if_pos hnil, hnil, List.append_nil]
    · rw [if_neg hnil, join_through hnames (fun c hc => (ne_of_mem_spelled hc).2) hnil]

theorem bytes_through_ne_nil (h : ∀ c ∈ parts, c ≠ .here ∧ c ≠ .root) (double : Bool) :
    (through double parts).bytes ≠ [] := by
  rw [bytes_through fun c hc => (h c hc).2]
  cases double <;> simp

theorem spelled_through (h : ∀ c ∈ parts, c ≠ .here ∧ c ≠ .root) (double atEnd : Bool) :
    spelled ((through double parts).closed atEnd).pieces = parts := by
  have hparts : ((through double parts).closed atEnd).parts = parts := by
    rw [parts_closed (bytes_through_ne_nil h double), parts_through fun c hc => (h c hc).2]
  rw [spelled_pieces, hparts, List.filter_eq_self]
  intro c hc
  simpa using (h c hc).1

/-- A path that is spelled out stays as it is when it is spelled out again. -/
theorem absolute?_closed (hp : ∀ c ∈ parts, c ≠ .here ∧ c ≠ .root) (double atEnd : Bool) (current : Path) :
    ((through double parts).closed atEnd).absolute? current = some ((through double parts).closed atEnd) := by
  have hroot : ∀ c ∈ parts, c ≠ .root := fun c hc => (hp c hc).2
  have hne := bytes_through_ne_nil hp double
  have hne' : ((through double parts).closed atEnd).bytes ≠ [] := by simp [bytes_closed, hne]
  have habs : ((through double parts).closed atEnd).isAbsolute = true := by
    rw [closed]
    split
    · exact isAbsolute_join (isAbsolute_through hroot double) _
    · exact isAbsolute_through hroot double
  rw [absolute?_of_isAbsolute habs current Place.root.toPath, absolute?_eq_through hne', habs, if_pos rfl,
    List.nil_append, spelled_through hp, hasDoubleRoot_closed hroot, endsInSlash_closed hne,
    endsInSlash_through hroot]
  cases atEnd with
  | true => rfl
  | false =>
    by_cases hnil : parts = []
    · have hs : (through double parts).endsInSlash = true := by rw [endsInSlash_through hroot, hnil]; rfl
      rw [closed_of_endsInSlash hs, closed_of_endsInSlash hs]
    · rw [Bool.false_or, List.isEmpty_eq_false_iff.2 hnil]

theorem ne_of_mem_through {c : Component} {names : List Name} {pieces : List Bytes}
    (h : c ∈ names.map Component.name ++ spelled pieces) : c ≠ .here ∧ c ≠ .root := by
  rcases List.mem_append.1 h with h | h
  · obtain ⟨n, -, rfl⟩ := List.mem_map.1 h
    exact ⟨nofun, nofun⟩
  · exact ne_of_mem_spelled h

theorem parts_of_absolute? {d : Place} (h : p.absolute? d.toPath = some q) :
    q.parts = (if p.isAbsolute then [] else d.names.reverse.map .name) ++ spelled p.pieces := by
  have hp : p.bytes ≠ [] := by
    intro hp
    rw [absolute?, if_pos hp] at h
    cases h
  rw [absolute?_eq_through hp] at h
  obtain rfl := Option.some.inj h
  have hparts : ∀ c ∈ (if p.isAbsolute then [] else d.names.reverse.map Component.name) ++ spelled p.pieces,
      c ≠ .here ∧ c ≠ .root := by
    intro c hc
    split at hc
    · exact ne_of_mem_spelled hc
    · exact ne_of_mem_through hc
  rw [parts_closed (bytes_through_ne_nil hparts _), parts_through fun c hc => (hparts c hc).2]

/-- What is spelled out is a path from the root through its parts. -/
theorem exists_through_of_absolute? {current : Path}
    (h : p.isAbsolute = true ∨ ∃ d : Place, current = d.toPath) (hq : p.absolute? current = some q) :
    ∃ double parts atEnd, (∀ c ∈ parts, c ≠ .here ∧ c ≠ .root) ∧
      q = (through double parts).closed atEnd := by
  obtain ⟨d, hd⟩ : ∃ d : Place, p.absolute? current = p.absolute? d.toPath := by
    rcases h with habs | ⟨d, rfl⟩
    · exact ⟨.root, absolute?_of_isAbsolute habs _ _⟩
    · exact ⟨d, rfl⟩
  have hp : p.bytes ≠ [] := by
    intro hp
    rw [absolute?, if_pos hp] at hq
    cases hq
  rw [hd, absolute?_eq_through hp] at hq
  refine ⟨_, _, _, ?_, (Option.some.inj hq).symm⟩
  intro c hc
  split at hc
  · exact ne_of_mem_spelled hc
  · exact ne_of_mem_through hc

/-- **Spelling out a directory that is spelled out changes nothing.** -/
theorem resolve_of_resolve {current : Option Path} (hcur : ∀ d ∈ current, ∃ place : Place, d = place.toPath)
    (h : resolve current p = .ok q) : resolve current q = .ok q := by
  cases hp : p.absolute? (current.getD ⟨[]⟩) with
  | none =>
    rw [resolve, hp] at h
    cases h
  | some q' =>
    rw [resolve, hp] at h
    dsimp only at h
    split at h
    · cases h
    rename_i hrel
    obtain rfl := Except.ok.inj h
    have hstart : p.isAbsolute = true ∨ ∃ d : Place, current.getD ⟨[]⟩ = d.toPath := by
      cases current with
      | none => exact Or.inl (by simpa using hrel)
      | some d => exact Or.inr (hcur d rfl)
    have hq : q'.isAbsolute = true := by
      refine isAbsolute_of_absolute? (hstart.imp_right ?_) hp
      rintro ⟨d, hd⟩
      rw [hd]
      rfl
    obtain ⟨double, parts, atEnd, hparts, rfl⟩ := exists_through_of_absolute? hstart hp
    rw [resolve, absolute?_closed hparts]
    dsimp only
    rw [if_neg (by simp [hq])]

end Path

namespace BuildConfig

variable {c c' : BuildConfig}

theorem absolute_absolute {current : Option Path} (hcur : ∀ d ∈ current, ∃ place : Place, d = place.toPath)
    (h : c.absolute current = .ok c') : c'.absolute current = .ok c' := by
  obtain ⟨source, output, lib, hs, ho, hl, rfl⟩ := absolute_eq_ok h
  have hlib : lib.mapM (Path.resolve current) = .ok lib := by
    cases hlib : c.libDir with
    | none =>
      rw [hlib] at hl
      cases hl
      rfl
    | some d =>
      rw [hlib, Option.mapM_some] at hl
      obtain ⟨d', hd, rfl⟩ := map_eq_ok.1 hl
      rw [Option.mapM_some, Path.resolve_of_resolve hcur hd]
      rfl
  rw [absolute]
  dsimp only
  rw [Path.resolve_of_resolve hcur hs, Path.resolve_of_resolve hcur ho, hlib]
  rfl

end BuildConfig

end GrammarBatch
