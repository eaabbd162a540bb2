import GrammarBatch.Proofs.Files.FromRoot
import GrammarBatch.Proofs.Files.Links
import GrammarBatch.Proofs.Files.Arrives

/-!
# Directories that are missing

* `FileSystem.lacks`: the places on the way of a path where nothing is;
* `FileSystem.Arrives.get?_of_mem_lacking`, `FileSystem.Arrives.of_lacking_eq_nil`: where directories are new, a
  path leads somewhere new only through such places, and each of them is a directory now;
* `FileSystem.Arrives.mem_lacking`: a place that was missing is on the way of each path that leads there now;
* `FileSystem.lacks_subset_of_outward`: a path lacks what the paths around it lack;
* **`FileSystem.isDirectory_makeDirectories_of_lacks`**: a directory that is missing stays missing when another
  one is made, unless that one lacks all that it lacks.
-/

namespace GrammarBatch.FileSystem

variable {fs fs' : FileSystem} {current d p q : Place} {n : Name} {e : Entry} {links : Nat} {moves : List Component}
  {path outer source output : Path}

/-- The places where nothing is that the moves from `p` come to, as if directories were there. -/
def lacking (fs : FileSystem) (links : Nat) (p : Place) (moves : List Component) : List Place :=
  match moves with
  | [] => []
  | .root :: moves => lacking fs links .root moves
  | .here :: moves => lacking fs links p moves
  | .up :: moves => lacking fs links p.parent moves
  | .name n :: moves =>
    match fs.get? (p.child n) with
    | none => p.child n :: lacking fs links (p.child n) moves
    | some (.link target) =>
      match links with
      | 0 => []
      | links + 1 => lacking fs links p (target.route ++ moves)
    | some _ => lacking fs links (p.child n) moves
termination_by (links, moves.length)

/-- The places on the way of the path where nothing is. -/
def lacks (fs : FileSystem) (current : Place) (path : Path) : List Place :=
  fs.lacking maxLinks current path.route

theorem lacking_root_cons : fs.lacking links p (.root :: moves) = fs.lacking links .root moves := by rw [lacking]

theorem lacking_here_cons : fs.lacking links p (.here :: moves) = fs.lacking links p moves := by rw [lacking]

theorem lacking_up_cons : fs.lacking links p (.up :: moves) = fs.lacking links p.parent moves := by rw [lacking]

theorem lacking_missing_cons (h : fs.get? (p.child n) = none) :
    fs.lacking links p (.name n :: moves) = p.child n :: fs.lacking links (p.child n) moves := by
  rw [lacking, h]

theorem lacking_link_cons {target : Path} (h : fs.get? (p.child n) = some (.link target)) :
    fs.lacking (links + 1) p (.name n :: moves) = fs.lacking links p (target.route ++ moves) := by
  rw [lacking, h]

theorem lacking_name_cons (h : fs.get? (p.child n) = some e) (hl : ∀ target, e = .link target → False) :
    fs.lacking links p (.name n :: moves) = fs.lacking links (p.child n) moves := by
  rw [lacking, h]
  cases e with
  | link target => exact absurd rfl (hl target)
  | _ => rfl

theorem get?_of_mem_lacking (h : q ∈ fs.lacking links p moves) : fs.get? q = none := by
  fun_induction lacking fs links p moves with
  | case1 | case6 => cases h
  | case5 links p n moves hg ih =>
    rcases List.mem_cons.1 h with rfl | h
    · exact hg
    · exact ih h
  | case2 _ _ _ ih | case3 _ _ _ ih | case4 _ _ _ ih | case7 _ _ _ _ _ _ ih | case8 _ _ _ _ _ _ _ ih => exact ih h

theorem lacking_append (fs : FileSystem) (links : Nat) (p : Place) (front back : List Component) :
    fs.lacking links p front <+: fs.lacking links p (front ++ back) := by
  fun_induction lacking fs links p front with
  | case1 | case6 => exact List.nil_prefix
  | case2 _ _ _ ih =>
    rw [List.cons_append, lacking_root_cons]
    exact ih
  | case3 _ _ _ ih =>
    rw [List.cons_append, lacking_here_cons]
    exact ih
  | case4 _ _ _ ih =>
    rw [List.cons_append, lacking_up_cons]
    exact ih
  | case5 _ _ _ _ hg ih =>
    rw [List.cons_append, lacking_missing_cons hg]
    exact List.cons_prefix_cons.2 ⟨rfl, ih⟩
  | case7 _ _ _ _ hg _ ih =>
    rw [List.cons_append, lacking_link_cons hg, ← List.append_assoc]
    exact ih
  | case8 _ _ _ _ _ hl hg ih =>
    rw [List.cons_append, lacking_name_cons hg hl]
    exact ih

theorem lacking_concat_here (fs : FileSystem) (links : Nat) (p : Place) (moves : List Component) :
    fs.lacking links p (moves ++ [.here]) = fs.lacking links p moves := by
  fun_induction lacking fs links p moves <;> simp_all [lacking]

theorem lacks_of_isAbsolute (h : path.isAbsolute = true) :
    fs.lacks current path = fs.lacking maxLinks .root path.parts := by
  rw [lacks, Path.route_of_isAbsolute h, lacking_root_cons]
  split
  · exact lacking_concat_here fs maxLinks .root path.parts
  · rw [List.append_nil]

/-- A path lacks what the paths around it lack. -/
theorem lacks_subset_of_outward (habs : path.isAbsolute = true) (h : path.Outward outer) :
    fs.lacks current outer ⊆ fs.lacks current path := by
  induction h with
  | here p => exact List.Subset.refl _
  | around hp _ ih =>
    have habs' := (Path.isAbsolute_parent? hp).trans habs
    obtain ⟨back, hback⟩ := Path.prefix_parts_parent? hp
    refine List.Subset.trans (ih habs') ?_
    rw [lacks_of_isAbsolute habs, lacks_of_isAbsolute habs', ← hback]
    exact (lacking_append fs maxLinks .root _ back).subset

/-! ## Where directories are new -/

/-- Everything that was in `fs` is there still, and all that is new are directories. -/
structure GainsDirectories (fs' fs : FileSystem) : Prop where
  keeps : fs'.Extends fs
  adds (q : Place) (e : Entry) (hnone : fs.get? q = none) (he : fs'.get? q = some e) : e = .directory

theorem gainsDirectories_makeDirectories (fs : FileSystem) (current : Place) (habs : path.isAbsolute = true) :
    (fs.makeDirectories current path).1.GainsDirectories fs :=
  ⟨extends_makeDirectories fs current habs, fun q e hnone he =>
    (addsOnly_makeDirectories fs current habs q e hnone he).1⟩

theorem eq_root_of_isWithin (h : Place.root.isWithin q = true) : q = .root :=
  Place.ext_names (List.suffix_nil.1 (Place.isWithin_iff.1 h))

theorem around_eq_parent (hw : fs.isWay p.names.tail = true) : fs.around p.names = p.parent := by
  rw [around_eq_of_isWay hw]
  exact Place.ext_names rfl

theorem get?_ne_none_of_isWay (hw : fs.isWay p.names = true) : fs.get? p ≠ none := by
  have hd : fs.isDirectoryAt p = true := isDirectoryAt_of_isWay hw
  simp [of_decide_eq_true hd]

section Gains

variable (h : fs'.GainsDirectories fs)

include h

theorem get?_of_link {target : Path} (hg : fs'.get? q = some (.link target)) :
    fs.get? q = some (.link target) := by
  cases hg' : fs.get? q with
  | none => cases h.adds _ _ hg' hg
  | some e => rw [← h.keeps _ _ hg', hg]

/-- Behind a name there was a directory that is new, or what was there before. -/
theorem lacking_of_name (hg : fs'.get? (p.child n) = some e) (hl : ∀ target, e = .link target → False) :
    (e = .directory ∧ fs.get? (p.child n) = none ∧
      fs.lacking links p (.name n :: moves) = p.child n :: fs.lacking links (p.child n) moves) ∨
    (fs.get? (p.child n) = some e ∧
      fs.lacking links p (.name n :: moves) = fs.lacking links (p.child n) moves) := by
  cases hg' : fs.get? (p.child n) with
  | none => exact Or.inl ⟨h.adds _ _ hg' hg, rfl, lacking_missing_cons hg'⟩
  | some e' =>
    obtain rfl : e' = e := Option.some.inj ((h.keeps _ _ hg').symm.trans hg)
    exact Or.inr ⟨rfl, lacking_name_cons hg' hl⟩

/-- Each place that was missing on the way of a path is a directory now if the path leads somewhere. -/
theorem Arrives.get?_of_mem_lacking (hr : fs'.Arrives d e links p moves) (hw : fs'.isWay p.names.tail = true)
    (hq : q ∈ fs.lacking links p moves) : fs'.get? q = some .directory := by
  induction hr with
  | done => simp [lacking] at hq
  | root _ ih =>
    rw [lacking_root_cons] at hq
    exact ih rfl hq
  | here _ _ ih =>
    rw [lacking_here_cons] at hq
    exact ih hw hq
  | up _ _ ih =>
    rw [lacking_up_cons] at hq
    rw [around_eq_parent hw] at ih
    exact ih (isWay_tail hw) hq
  | name hd _ hg hl _ ih =>
    have hw' := isWay_names_of_isDirectoryAt hd hw
    rcases lacking_of_name h hg hl with ⟨rfl, -, hlacking⟩ | ⟨-, hlacking⟩
    · rw [hlacking] at hq
      rcases List.mem_cons.1 hq with rfl | hq
      · exact hg
      · exact ih hw' hq
    · rw [hlacking] at hq
      exact ih hw' hq
  | link _ _ hg _ ih =>
    rw [lacking_link_cons (get?_of_link h hg)] at hq
    exact ih hw hq

/-- What was missing where a path leads to, or around it, was missing around its start or on its way. -/
theorem Arrives.mem_lacking (hr : fs'.Arrives d e links p moves) (hw : fs'.isWay p.names.tail = true)
    (hd : d.isWithin q = true) (hq : fs.get? q = none) : p.isWithin q = true ∨ q ∈ fs.lacking links p moves := by
  induction hr with
  | done => exact Or.inl hd
  | root _ ih =>
    rw [lacking_root_cons]
    refine (ih rfl).imp_left fun hroot => ?_
    obtain rfl := eq_root_of_isWithin hroot
    exact absurd hq (by simp [get?])
  | here _ _ ih =>
    rw [lacking_here_cons]
    exact ih hw
  | @up _ p _ _ _ ih =>
    rw [lacking_up_cons]
    rw [around_eq_parent hw] at ih
    refine (ih (isWay_tail hw)).imp_left fun hin => ?_
    exact Place.isWithin_iff.2 ((Place.isWithin_iff.1 hin).trans (List.tail_suffix p.names))
  | @name _ p n _ _ hdir _ hg hl _ ih =>
    have ih := ih (isWay_names_of_isDirectoryAt hdir hw)
    have hchild (hin : (p.child n).isWithin q = true) : q = p.child n ∨ p.isWithin q = true := by
      refine (List.suffix_cons_iff.1 (Place.isWithin_iff.1 hin)).imp (fun hname => ?_) Place.isWithin_iff.2
      exact Place.ext_names hname
    rcases lacking_of_name h hg hl with ⟨rfl, -, hlacking⟩ | ⟨hg', hlacking⟩
    · rw [hlacking, List.mem_cons]
      tauto
    · rw [hlacking]
      rcases ih with hin | hin
      · rcases hchild hin with rfl | hin
        · exact absurd hg' (by simp [hq])
        · exact Or.inl hin
      · exact Or.inr hin
  | link _ _ hg _ ih =>
    rw [lacking_link_cons (get?_of_link h hg)]
    exact ih hw

theorem Arrives.of_lacking_eq_nil (hr : fs'.Arrives d e links p moves) (hw : fs.isWay p.names.tail = true)
    (hp : fs.get? p ≠ none) (hno : fs.lacking links p moves = []) : fs.Arrives d e links p moves := by
  have hsame {p : Place} {e : Entry} (hp : fs.get? p ≠ none) (he : fs'.get? p = some e) : fs.get? p = some e := by
    obtain ⟨e', he'⟩ := Option.ne_none_iff_exists'.1 hp
    rw [he', ← h.keeps p e' he', he]
  have hdir {p : Place} (hp : fs.get? p ≠ none) (hd : fs'.isDirectoryAt p = true) : fs.isDirectoryAt p = true :=
    decide_eq_true (hsame hp (of_decide_eq_true hd))
  induction hr with
  | done hd => exact .done (hsame hp hd)
  | root _ ih =>
    rw [lacking_root_cons] at hno
    exact .root (ih rfl (by simp [get?]) hno)
  | here hd _ ih =>
    rw [lacking_here_cons] at hno
    exact .here (hdir hp hd) (ih hw hp hno)
  | up hd _ ih =>
    rw [lacking_up_cons] at hno
    rw [around_eq_parent (isWay_extends h.keeps hw)] at ih
    refine .up (hdir hp hd) ?_
    rw [around_eq_parent hw]
    exact ih (isWay_tail hw) (get?_ne_none_of_isWay hw) hno
  | name hd hn hg hl _ ih =>
    have hw' := isWay_names_of_isDirectoryAt (hdir hp hd) hw
    rcases lacking_of_name h hg hl with ⟨-, -, hlacking⟩ | ⟨hg', hlacking⟩
    · rw [hlacking] at hno
      cases hno
    · rw [hlacking] at hno
      exact .name (hdir hp hd) hn hg' hl (ih hw' (by simp [hg']) hno)
  | link hd hn hg _ ih =>
    rw [lacking_link_cons (get?_of_link h hg)] at hno
    exact .link (hdir hp hd) hn (get?_of_link h hg) (ih hw hp hno)

end Gains

/-- **A directory that is missing stays missing when another one is made, unless something was missing on its way
and all that was missing there is made, too.** -/
theorem isDirectory_makeDirectories_of_lacks (hs : source.isAbsolute = true) (ho : output.isAbsolute = true)
    (hmissing : fs.isDirectory current source = false)
    (h : fs.lacks current source = [] ∨ ¬ fs.lacks current source ⊆ fs.lacks current output) :
    (fs.makeDirectories current output).1.isDirectory current source = false := by
  rw [Bool.eq_false_iff]
  intro hd
  obtain ⟨d, hd⟩ := isDirectory_iff.1 hd
  rw [find_of_isAbsolute hs current .root, find_eq_ok_iff] at hd
  have hgains := gainsDirectories_makeDirectories fs current ho
  have hroot {path : Path} (hp : path.isAbsolute = true) : fs.lacks current path = fs.lacks .root path := by
    rw [lacks_of_isAbsolute hp, lacks_of_isAbsolute hp]
  rw [hroot hs, hroot ho] at h
  rcases h with hnil | hnot
  · have harrives := hd.2.of_lacking_eq_nil hgains rfl (by simp [get?]) hnil
    have hthere : fs.isDirectory current source = true := by
      rw [isDirectory_iff]
      refine ⟨d, ?_⟩
      rw [find_of_isAbsolute hs current .root, find_eq_ok_iff]
      exact ⟨hd.1, harrives⟩
    rw [hmissing] at hthere
    cases hthere
  · refine hnot fun q hq => ?_
    have hnone := get?_of_mem_lacking hq
    have hq' := hd.2.get?_of_mem_lacking hgains rfl hq
    obtain ⟨-, outer, houter, hf⟩ := addsOnly_makeDirectories fs current ho q .directory hnone hq'
    rw [find_of_isAbsolute (isAbsolute_of_outward houter ho) current .root, find_eq_ok_iff] at hf
    rcases hf.2.mem_lacking hgains rfl (Place.isWithin_refl q) hnone with hin | hin
    · obtain rfl := eq_root_of_isWithin hin
      exact absurd hnone (by simp [get?])
    · exact lacks_subset_of_outward ho houter hin

end GrammarBatch.FileSystem
