import GrammarBatch.Files.Folders
import GrammarBatch.Files.Walk
import GrammarBatch.Proofs.Path.Parent

/-!
# What making directories does

* `FileSystem.Extends`: everything that was there is there still;
* `FileSystem.follow_extends`: a path that led somewhere still leads there;
* `FileSystem.find_eq_directory_iff`: a trailing slash does not matter where a path leads to a directory;
* `FileSystem.AddsOnly`: what is new is a directory that the path leads to, or one around it;
* **`FileSystem.made_makeDirectoriesWithin`**: making directories only adds such directories to what is there,
  and where it succeeds the path leads to a directory;
* **`FileSystem.makeDirectories_of_isDirectory`**: where the directory is there, nothing is made.
-/

namespace GrammarBatch

/-- The second path is the first one, or what is left of it when parts are taken off its end. -/
inductive Path.Outward : Path → Path → Prop where
  | here (p : Path) : Outward p p
  | around {p q r : Path} (h : p.parent? = some q) (hr : Outward q r) : Outward p r

namespace FileSystem

variable {fs fs' : FileSystem} {current d p q : Place} {path : Path} {n : Name} {e : Entry} {atEnd : Bool}
  {links : Nat} {moves : List Component}

/-! ## Adding entries -/

/-- Everything that was in `fs` is there still. -/
def Extends (fs' fs : FileSystem) : Prop := ∀ p e, fs.get? p = some e → fs'.get? p = some e

theorem Extends.refl (fs : FileSystem) : fs.Extends fs := fun _ _ h => h

theorem Extends.trans {fs'' : FileSystem} (h : fs''.Extends fs') (h' : fs'.Extends fs) : fs''.Extends fs :=
  fun p e he => h p e (h' p e he)

theorem extends_insert (h : fs.get? q = none) (e : Entry) : (fs.insert q e).Extends fs := by
  intro p e' hp
  have hne : p ≠ q := by
    rintro rfl
    rw [h] at hp
    cases hp
  rw [get?_insert_of_ne fs hne, hp]

theorem isDirectoryAt_extends (h : fs'.Extends fs) (hd : fs.isDirectoryAt p = true) :
    fs'.isDirectoryAt p = true := by
  unfold isDirectoryAt at hd ⊢
  exact decide_eq_true (h p _ (of_decide_eq_true hd))

theorem isWay_extends (h : fs'.Extends fs) {names : List Name} (hw : fs.isWay names = true) :
    fs'.isWay names = true := by
  induction names with
  | nil => rfl
  | cons n names ih =>
    rw [isWay, Bool.and_eq_true] at hw ⊢
    exact ⟨isDirectoryAt_extends h hw.1, ih hw.2⟩

theorem isWay_tail {names : List Name} (hw : fs.isWay names = true) : fs.isWay names.tail = true := by
  cases names with
  | nil => rfl
  | cons n names => exact (Bool.and_eq_true_iff.1 hw).2

theorem isDirectoryAt_of_isWay (hw : fs.isWay p.names = true) : fs.isDirectoryAt p = true := by
  cases hn : p.names with
  | nil =>
    obtain rfl : p = .root := Place.ext_names hn
    rfl
  | cons n names =>
    rw [hn] at hw
    obtain rfl : p = .ofNames (n :: names) := Place.ext_names hn
    exact (Bool.and_eq_true_iff.1 hw).1

theorem around_eq_of_isWay {names : List Name} (hw : fs.isWay names.tail = true) :
    fs.around names = .ofNames names.tail := by
  cases names with
  | nil => rfl
  | cons n names =>
    rw [List.tail_cons] at hw
    rw [around, if_pos (isDirectoryAt_of_isWay hw), List.tail_cons]

theorem isWay_names_of_isDirectoryAt (hd : fs.isDirectoryAt p = true) (hw : fs.isWay p.names.tail = true) :
    fs.isWay p.names = true := by
  cases hn : p.names with
  | nil => rfl
  | cons n names =>
    have hp : p = .ofNames (n :: names) := Place.ext_names hn
    rw [hn, List.tail_cons] at hw
    rw [isWay, Bool.and_eq_true, ← hp]
    exact ⟨hd, hw⟩

/-! ## Following a path -/

section Follow

variable {rest : List Component}

theorem follow_nil (h : fs.get? p = some e) : fs.follow atEnd links p [] = .ok (p, e) := by
  rw [follow, h]

theorem follow_root_cons : fs.follow atEnd links p (.root :: moves) = fs.follow atEnd links .root moves := by
  rw [follow]

theorem follow_here_cons (hd : fs.isDirectoryAt p = true) :
    fs.follow atEnd links p (.here :: moves) = fs.follow atEnd links p moves := by
  rw [follow, if_pos hd]

theorem follow_up_cons (hd : fs.isDirectoryAt p = true) :
    fs.follow atEnd links p (.up :: moves) = fs.follow atEnd links (fs.around p.names) moves := by
  rw [follow, if_pos hd]

theorem follow_name_cons (hd : fs.isDirectoryAt p = true) (hn : ¬ maxName < n.bytes.length)
    (hg : fs.get? (p.child n) = some e) (hl : ∀ target, e = .link target → False) :
    fs.follow atEnd links p (.name n :: moves) = fs.follow atEnd links (p.child n) moves := by
  rw [follow, if_neg (by simpa using hd), if_neg hn, hg]
  cases e with
  | link target => exact absurd rfl (hl target)
  | _ => rfl

theorem follow_link_cons {target : Path} (hd : fs.isDirectoryAt p = true) (hn : ¬ maxName < n.bytes.length)
    (hg : fs.get? (p.child n) = some (.link target)) (hm : ¬ (moves = [] ∧ atEnd = false)) :
    fs.follow atEnd (links + 1) p (.name n :: moves) = fs.follow atEnd links p (target.route ++ moves) := by
  rw [follow, if_neg (by simpa using hd), if_neg hn, hg]
  exact if_neg hm

theorem follow_link_end {target : Path} (hd : fs.isDirectoryAt p = true) (hn : ¬ maxName < n.bytes.length)
    (hg : fs.get? (p.child n) = some (.link target)) (hm : moves = [] ∧ atEnd = false) :
    fs.follow atEnd links p (.name n :: moves) = .ok (p.child n, .link target) := by
  rw [follow, if_neg (by simpa using hd), if_neg hn, hg]
  exact if_pos hm

/-- What a path led to it still leads to, if every directory that it comes to has the same one around it. The
places it comes to are those that `I` holds of. -/
theorem follow_extends_of {I : Place → Prop} (h : fs'.Extends fs) (hroot : I .root)
    (hchild : ∀ p n, fs.isDirectoryAt p = true → I p → I (p.child n))
    (hup : ∀ p, fs.isDirectoryAt p = true → I p →
      fs'.around p.names = fs.around p.names ∧ I (fs.around p.names))
    (hp : I p) (hf : fs.follow atEnd links p moves = .ok (q, e)) :
    fs'.follow atEnd links p moves = .ok (q, e) := by
  fun_induction follow fs atEnd links p moves with
  | case1 links p e' hget =>
    rw [follow_nil (h p e' hget), hf]
  | case3 links p moves ih =>
    rw [follow_root_cons]
    exact ih hroot hf
  | case4 links p moves hd ih =>
    rw [follow_here_cons (isDirectoryAt_extends h hd)]
    exact ih hp hf
  | case6 links p moves hd ih =>
    rw [follow_up_cons (isDirectoryAt_extends h hd), (hup p hd hp).1]
    exact ih (hup p hd hp).2 hf
  | case11 links p n moves hd hn target hg hm =>
    rw [Bool.not_eq_true', Bool.not_eq_false] at hd
    rw [follow_link_end (isDirectoryAt_extends h hd) hn (h _ _ hg) hm, hf]
  | case13 p n moves hd hn target hg hm links ih =>
    rw [Bool.not_eq_true', Bool.not_eq_false] at hd
    rw [follow_link_cons (isDirectoryAt_extends h hd) hn (h _ _ hg) hm]
    exact ih hp hf
  | case14 links p n moves hd hn e' hl hg ih =>
    rw [Bool.not_eq_true', Bool.not_eq_false] at hd
    rw [follow_name_cons (isDirectoryAt_extends h hd) hn (h _ _ hg) hl]
    exact ih (hchild p n hd hp) hf
  | _ => cases hf

/-- What a path led to it still leads to, if all the directories around its start are there. -/
theorem follow_extends (h : fs'.Extends fs) (hw : fs.isWay p.names.tail = true)
    (hf : fs.follow atEnd links p moves = .ok (q, e)) : fs'.follow atEnd links p moves = .ok (q, e) := by
  refine follow_extends_of (I := fun p => fs.isWay p.names.tail = true) h rfl ?_ ?_ hw hf
  · intro p n hd hw
    exact isWay_names_of_isDirectoryAt hd hw
  · intro p hd hw
    rw [around_eq_of_isWay hw, around_eq_of_isWay (isWay_extends h hw)]
    exact ⟨rfl, isWay_tail hw⟩

theorem exists_follow_error (hd : ¬ fs.isDirectoryAt p = true) {c : Component} (hc : c ≠ .root) :
    ∃ x, fs.follow atEnd links p (c :: moves) = .error x := by
  cases c with
  | root => exact absurd rfl hc
  | here => exact ⟨_, by rw [follow, if_neg hd]⟩
  | up => exact ⟨_, by rw [follow, if_neg hd]⟩
  | name n => exact ⟨_, by rw [follow, if_pos (by simpa using hd)]⟩

/-- One move more fails where those before it do, and else goes on where they lead. -/
theorem follow_concat (fs : FileSystem) (links : Nat) (p : Place) (moves : List Component) {c : Component}
    (hc : c ≠ .root) :
    (∃ x y, fs.follow true links p moves = .error x ∧ fs.follow true links p (moves ++ [c]) = .error y) ∨
      ∃ links' q e, fs.follow true links p moves = .ok (q, e) ∧
        fs.follow true links p (moves ++ [c]) = fs.follow true links' q [c] := by
  fun_induction follow fs true links p moves with
  | case1 links p e hp => exact Or.inr ⟨links, p, e, rfl, rfl⟩
  | case2 links p hp =>
    have hd : ¬ fs.isDirectoryAt p = true := by simp [isDirectoryAt, hp]
    obtain ⟨x, hx⟩ := exists_follow_error hd hc
    exact Or.inl ⟨_, x, rfl, hx⟩
  | case3 links p moves ih =>
    rw [List.cons_append, follow_root_cons]
    exact ih
  | case4 links p moves hd ih =>
    rw [List.cons_append, follow_here_cons hd]
    exact ih
  | case5 links p moves hd => exact Or.inl ⟨_, _, rfl, by rw [List.cons_append, follow, if_neg hd]⟩
  | case6 links p moves hd ih =>
    rw [List.cons_append, follow_up_cons hd]
    exact ih
  | case7 links p moves hd => exact Or.inl ⟨_, _, rfl, by rw [List.cons_append, follow, if_neg hd]⟩
  | case8 links p n moves hd => exact Or.inl ⟨_, _, rfl, by rw [List.cons_append, follow, if_pos hd]⟩
  | case9 links p n moves hd hn =>
    exact Or.inl ⟨_, _, rfl, by rw [List.cons_append, follow, if_neg hd, if_pos hn]⟩
  | case10 links p n moves hd hn hg =>
    exact Or.inl ⟨_, _, rfl, by rw [List.cons_append, follow, if_neg hd, if_neg hn, hg]⟩
  | case11 links p n moves hd hn target hg hm => cases hm.2
  | case12 p n moves hd hn target hg hm =>
    refine Or.inl ⟨_, .tooManyLinks, rfl, ?_⟩
    rw [List.cons_append, follow, if_neg hd, if_neg hn, hg]
    exact if_neg fun hm => Bool.noConfusion hm.2
  | case13 p n moves hd hn target hg hm links ih =>
    rw [Bool.not_eq_true', Bool.not_eq_false] at hd
    have hm : ¬ (moves ++ [c] = [] ∧ true = false) := fun hm => Bool.noConfusion hm.2
    rw [List.cons_append, follow_link_cons hd hn hg hm, ← List.append_assoc]
    exact ih
  | case14 links p n moves hd hn e hl hg ih =>
    rw [Bool.not_eq_true', Bool.not_eq_false] at hd
    rw [List.cons_append, follow_name_cons hd hn hg hl]
    exact ih

theorem isDirectoryAt_of_follow (hf : fs.follow true links p moves = .ok (d, .directory)) :
    fs.isDirectoryAt d = true := by
  rw [isDirectoryAt, get?_of_follow hf]
  rfl

theorem follow_concat_here_iff : fs.follow true links p (moves ++ [.here]) = .ok (d, .directory) ↔
    fs.follow true links p moves = .ok (d, .directory) := by
  have hhere : Component.here ≠ .root := nofun
  rcases follow_concat fs links p moves hhere with ⟨x, y, hx, hy⟩ | ⟨links', q, e, hq, hc⟩
  · rw [hx, hy]
    exact ⟨nofun, nofun⟩
  · have hg := get?_of_follow hq
    rw [hc, hq]
    by_cases hd : fs.isDirectoryAt q = true
    · have he : e = .directory := by
        have hdir : fs.get? q = some .directory := of_decide_eq_true hd
        rw [hg] at hdir
        exact Option.some.inj hdir
      rw [follow_here_cons hd, follow_nil hg, he]
    · have he : e ≠ .directory := by
        rintro rfl
        exact hd (by rw [isDirectoryAt, hg]; rfl)
      obtain ⟨x, hx⟩ : ∃ x, fs.follow true links' q [.here] = .error x := exists_follow_error hd hhere
      rw [hx]
      constructor
      · nofun
      · intro h
        cases h
        exact absurd rfl he

theorem follow_concat_name (hf : fs.follow true links p moves = .ok (d, .directory))
    (hn : ¬ maxName < n.bytes.length) (hg : fs.get? (d.child n) = some .directory) :
    fs.follow true links p (moves ++ [.name n]) = .ok (d.child n, .directory) := by
  have hname : Component.name n ≠ .root := nofun
  rcases follow_concat fs links p moves hname with ⟨x, y, hx, -⟩ | ⟨links', q, e, hq, hc⟩
  · rw [hf] at hx
    cases hx
  · rw [hf] at hq
    cases hq
    rw [hc, follow_name_cons (isDirectoryAt_of_follow hf) hn hg nofun, follow_nil hg]

/-- It does not matter for a directory whether its path ends in a slash. -/
theorem find_eq_directory_iff : fs.find current path true = .ok (d, .directory) ↔
    pathFault? path = none ∧ fs.follow true maxLinks current path.makingRoute = .ok (d, .directory) := by
  have hroute : fs.follow true maxLinks current path.route = .ok (d, .directory) ↔
      fs.follow true maxLinks current path.makingRoute = .ok (d, .directory) := by
    unfold Path.route Path.makingRoute
    cases path.endsInSlash with
    | false => rw [if_neg Bool.false_ne_true, List.append_nil]
    | true => rw [if_pos rfl, follow_concat_here_iff]
  rw [find, ← hroute]
  cases pathFault? path with
  | none => simp
  | some x => simp

theorem isDirectory_iff : fs.isDirectory current path = true ↔
    ∃ d, fs.find current path true = .ok (d, .directory) := by
  rw [isDirectory]
  split
  · exact ⟨fun _ => ⟨_, ‹_›⟩, fun _ => rfl⟩
  · rename_i hno
    exact ⟨nofun, fun ⟨d, hd⟩ => absurd hd (hno d)⟩

theorem find_directory_extends (h : fs'.Extends fs) (habs : path.isAbsolute = true)
    (hf : fs.find current path true = .ok (d, .directory)) :
    fs'.find current path true = .ok (d, .directory) := by
  rw [find_eq_directory_iff, Path.makingRoute, if_pos habs, List.singleton_append, follow_root_cons] at hf ⊢
  exact ⟨hf.1, follow_extends h rfl hf.2⟩

end Follow

/-! ## Making directories -/

theorem bytes_ne_nil_of_isAbsolute (habs : path.isAbsolute = true) : path.bytes ≠ [] := by
  intro hb
  rw [Path.isAbsolute, hb] at habs
  cases habs

theorem isAbsolute_of_outward {outer : Path} (h : path.Outward outer) (habs : path.isAbsolute = true) :
    outer.isAbsolute = true := by
  induction h with
  | here p => exact habs
  | around hp _ ih => exact ih ((Path.isAbsolute_parent? hp).trans habs)

/-- What is there and was not in `fs` is a directory that the path leads to, or a path around it. -/
def AddsOnly (fs' fs : FileSystem) (current : Place) (path : Path) : Prop :=
  ∀ p e, fs.get? p = none → fs'.get? p = some e →
    e = .directory ∧ ∃ outer, path.Outward outer ∧ fs'.find current outer true = .ok (p, .directory)

theorem AddsOnly.refl (fs : FileSystem) : fs.AddsOnly fs current path := by
  intro p e hnone he
  rw [hnone] at he
  cases he

theorem AddsOnly.outward {around : Path} (h : fs'.AddsOnly fs current around)
    (hp : path.parent? = some around) : fs'.AddsOnly fs current path := by
  intro p e hnone he
  obtain ⟨hdir, outer, ho, hf⟩ := h p e hnone he
  exact ⟨hdir, outer, .around hp ho, hf⟩

theorem AddsOnly.trans {fs'' : FileSystem} (habs : path.isAbsolute = true) (hext : fs''.Extends fs')
    (h : fs'.AddsOnly fs current path) (h' : fs''.AddsOnly fs' current path) :
    fs''.AddsOnly fs current path := by
  intro p e hnone he
  cases hp : fs'.get? p with
  | none => exact h' p e hp he
  | some e' =>
    obtain ⟨rfl, outer, ho, hf⟩ := h p e' hnone hp
    rw [hext p _ hp] at he
    exact ⟨(Option.some.inj he).symm, outer, ho, find_directory_extends hext (isAbsolute_of_outward ho habs) hf⟩

/-- What making the directory of that path from `fs` came to: everything is there still, nothing is new but
directories on the way, and if it succeeded the path leads to the directory. -/
structure Made (fs : FileSystem) (current : Place) (path : Path) (r : FileSystem × Except SystemError Place) :
    Prop where
  keeps : r.1.Extends fs
  adds : r.1.AddsOnly fs current path
  leads (d : Place) (h : r.2 = .ok d) : r.1.find current path true = .ok (d, .directory)

theorem made_error (x : SystemError) : Made fs current path (fs, .error x) :=
  ⟨.refl fs, .refl fs, nofun⟩

theorem Made.trans (habs : path.isAbsolute = true) (h : fs'.Extends fs) (h' : fs'.AddsOnly fs current path)
    {r : FileSystem × Except SystemError Place} (hr : Made fs' current path r) : Made fs current path r :=
  ⟨hr.keeps.trans h, h'.trans habs hr.keeps hr.adds, hr.leads⟩

theorem made_orFound {m : Except SystemError (FileSystem × Place)}
    (h : ∀ fs' d, m = .ok (fs', d) → Made fs current path (fs', .ok d)) :
    Made fs current path (fs.orFound current path m) := by
  cases m with
  | ok r => exact h _ _ rfl
  | error x =>
    rw [orFound]
    split
    · rename_i d hf
      refine ⟨.refl fs, .refl fs, fun d' hd' => ?_⟩
      cases hd'
      exact hf
    · exact made_error x

/-- A directory that is added is where the path leads to that goes there by that name. -/
theorem made_addDirectory (habs : path.isAbsolute = true) (hfault : pathFault? path = none)
    (hroute : path.makingRoute = moves ++ [.name n])
    (hf : fs.follow true maxLinks p moves = .ok (d, .directory))
    (h : fs.addDirectory d n = .ok (fs', q)) : Made fs current path (fs', .ok q) := by
  unfold addDirectory at h
  split at h
  · cases h
  rename_i hn
  split at h
  · cases h
  rename_i hg
  cases h
  have hext : (fs.insert (d.child n) .directory).Extends fs := extends_insert (by simpa using hg) .directory
  have hg' := get?_insert_self fs (Place.child_ne_root d n) .directory
  have hmoves : ∃ rest, moves = .root :: rest := by
    rw [Path.makingRoute, if_pos habs, List.singleton_append] at hroute
    cases moves with
    | nil => cases hroute
    | cons c rest => exact ⟨rest, by rw [(List.cons.inj hroute).1]⟩
  obtain ⟨rest, rfl⟩ := hmoves
  have hfind : (fs.insert (d.child n) .directory).find current path true = .ok (d.child n, .directory) := by
    rw [follow_root_cons] at hf
    have hf' := follow_extends hext rfl hf
    rw [find_eq_directory_iff, hroute]
    refine ⟨hfault, follow_concat_name ?_ hn hg'⟩
    rw [follow_root_cons]
    exact hf'
  refine ⟨hext, fun p e hnone he => ?_, fun d' hd' => ?_⟩
  · by_cases hp : p = d.child n
    · subst hp
      rw [hg'] at he
      exact ⟨(Option.some.inj he).symm, path, .here path, hfind⟩
    · rw [get?_insert_of_ne fs hp, hnone] at he
      cases he
  · cases hd'
    exact hfind

theorem made_makeDirectory (habs : path.isAbsolute = true)
    (h : fs.makeDirectory current path = .ok (fs', q)) : Made fs current path (fs', .ok q) := by
  unfold makeDirectory at h
  split at h
  · cases h
  rename_i hfault
  split at h
  · cases h
  · rename_i d hf
    split at h
    · rename_i n hn
      have hroute : path.makingRoute = path.makingRoute.dropLast ++ [.name n] :=
        (List.dropLast_append_getLast? _ hn).symm
      exact made_addDirectory habs hfault hroute hf h
    · cases h
  · cases h

theorem pathFault?_of_notFound (hb : path.bytes ≠ []) (h : fs.makeDirectory current path = .error .notFound) :
    pathFault? path = none := by
  unfold makeDirectory at h
  split at h
  · rename_i x hx
    cases h
    rw [pathFault?, if_neg hb] at hx
    split at hx
    · cases hx
    split at hx
    · cases hx
    · cases hx
  · assumption

theorem makingRoute_of_nameAfter? {around : Path} (h : path.nameAfter? around = some n) :
    path.makingRoute = around.makingRoute ++ [.name n] := by
  unfold Path.nameAfter? at h
  split at h
  · rename_i m hm
    split at h
    · rename_i hd
      cases h
      rw [← hd]
      exact (List.dropLast_append_getLast? _ hm).symm
    · cases h
  · cases h

/-- **Making directories only adds directories on the way to what is there, and where it succeeds the path
leads to a directory.** -/
theorem made_makeDirectoriesWithin (limit : Nat) (fs : FileSystem) (current : Place) {path : Path}
    (habs : path.isAbsolute = true) : Made fs current path (makeDirectoriesWithin limit fs current path) := by
  induction limit generalizing path with
  | zero => exact made_error _
  | succ limit ih =>
    rw [makeDirectoriesWithin, if_neg (bytes_ne_nil_of_isAbsolute habs)]
    split
    · rename_i hnot
      split
      · exact made_error _
      · rename_i around haround
        have hfault := pathFault?_of_notFound (bytes_ne_nil_of_isAbsolute habs) hnot
        have habs' := (Path.isAbsolute_parent? haround).trans habs
        have ih := ih habs'
        split
        · rename_i fs' d hrec
          rw [hrec] at ih
          refine .trans habs ih.keeps (ih.adds.outward haround) ?_
          have hf := (find_eq_directory_iff.1 (ih.leads d rfl)).2
          split
          · rename_i n hn
            exact made_orFound fun fs'' q h =>
              made_addDirectory habs hfault (makingRoute_of_nameAfter? hn) hf h
          · exact made_orFound fun fs'' q h => made_makeDirectory habs h
        · rename_i fs' x hrec
          rw [hrec] at ih
          exact ⟨ih.keeps, ih.adds.outward haround, nofun⟩
    · exact made_orFound fun fs' q h => made_makeDirectory habs h

theorem extends_makeDirectories (fs : FileSystem) (current : Place) (habs : path.isAbsolute = true) :
    (fs.makeDirectories current path).1.Extends fs := by
  have hmade := made_makeDirectoriesWithin (path.bytes.length + 1) fs current habs
  rw [makeDirectories]
  exact hmade.keeps

theorem addsOnly_makeDirectories (fs : FileSystem) (current : Place) (habs : path.isAbsolute = true) :
    (fs.makeDirectories current path).1.AddsOnly fs current path := by
  have hmade := made_makeDirectoriesWithin (path.bytes.length + 1) fs current habs
  rw [makeDirectories]
  exact hmade.adds

theorem isDirectory_makeDirectories (habs : path.isAbsolute = true)
    (h : fs.makeDirectories current path = (fs', .ok ())) : fs'.isDirectory current path = true := by
  have hmade := made_makeDirectoriesWithin (path.bytes.length + 1) fs current habs
  unfold makeDirectories at h
  cases hr : makeDirectoriesWithin (path.bytes.length + 1) fs current path with
  | mk files made =>
    rw [hr] at h hmade
    cases made with
    | error x => cases h
    | ok d =>
      cases h
      rw [isDirectory, hmade.leads d rfl]

/-! ## Directories that are there -/

theorem root_notMem_parts (path : Path) : .root ∉ path.parts := by
  intro h
  obtain ⟨b, -, hb⟩ := List.mem_filterMap.1 h
  exact Component.ofPiece?_ne_root b hb

/-- All moves but the last one lead to a directory if all of them do. -/
theorem exists_follow_of_concat {c : Component} (hc : c ≠ .root)
    (h : fs.follow true links p (moves ++ [c]) = .ok (d, .directory)) :
    ∃ links' q, fs.follow true links p moves = .ok (q, .directory) ∧
      fs.follow true links' q [c] = .ok (d, .directory) := by
  rcases follow_concat fs links p moves hc with ⟨x, y, -, hy⟩ | ⟨links', q, e, hq, hlast⟩
  · rw [h] at hy
    cases hy
  · rw [h] at hlast
    have hd : fs.isDirectoryAt q = true := by
      by_contra hd
      obtain ⟨x, hx⟩ : ∃ x, fs.follow true links' q [c] = .error x := exists_follow_error hd hc
      rw [hx] at hlast
      cases hlast
    have hdir : fs.get? q = some .directory := of_decide_eq_true hd
    rw [get?_of_follow hq] at hdir
    obtain rfl := Option.some.inj hdir
    exact ⟨links', q, hq, hlast.symm⟩

theorem addDirectory_of_follow (h : fs.follow true links q [.name n] = .ok (d, .directory)) :
    fs.addDirectory q n = .error .alreadyExists := by
  rw [follow] at h
  split at h
  · cases h
  split at h
  · cases h
  rename_i hn
  have hthere : (fs.get? (q.child n)).isSome = true := by
    cases hg : fs.get? (q.child n) with
    | some e => rfl
    | none =>
      rw [hg] at h
      cases h
  rw [addDirectory, if_neg hn, if_pos hthere]

theorem makeDirectory_of_find (h : fs.find current path true = .ok (d, .directory)) :
    fs.makeDirectory current path = .error .alreadyExists := by
  obtain ⟨hfault, hf⟩ := find_eq_directory_iff.1 h
  have hstart : fs.follow true maxLinks (if path.isAbsolute then .root else current) path.parts =
      .ok (d, .directory) := by
    rw [Path.makingRoute] at hf
    split at hf
    · rwa [if_pos ‹_›, ← follow_root_cons]
    · rwa [if_neg ‹_›]
  rw [makeDirectory, hfault]
  dsimp only
  rcases List.eq_nil_or_concat' path.parts with hnil | ⟨front, c, hc⟩
  · have hdrop : path.makingRoute.dropLast = [] := by
      rw [Path.makingRoute, hnil]
      split <;> rfl
    have hlast (n : Name) : path.makingRoute.getLast? ≠ some (.name n) := by
      rw [Path.makingRoute, hnil]
      split <;> simp
    rw [hnil] at hstart
    rw [hdrop, hstart]
    dsimp only
    split
    · exact absurd ‹_› (hlast _)
    · rfl
  · have hroot : c ≠ .root := by
      rintro rfl
      exact root_notMem_parts path (by simp [hc])
    rw [hc] at hstart
    obtain ⟨links, q, hq, hlast⟩ := exists_follow_of_concat hroot hstart
    have hroute : path.makingRoute = (if path.isAbsolute then [.root] else []) ++ front ++ [c] := by
      rw [Path.makingRoute, hc, List.append_assoc]
    have hq' : fs.follow true maxLinks (if path.isAbsolute then .root else current)
        ((if path.isAbsolute then [.root] else []) ++ front) = .ok (q, .directory) := by
      by_cases habs : path.isAbsolute = true
      · rw [if_pos habs] at hq ⊢
        rw [if_pos habs, List.singleton_append, follow_root_cons, hq]
      · rw [if_neg habs] at hq ⊢
        rw [if_neg habs, List.nil_append, hq]
    rw [hroute, List.dropLast_concat, List.getLast?_concat, hq']
    cases c with
    | name n => exact addDirectory_of_follow hlast
    | _ => rfl

/-- **Where the directory is there, nothing is made.** -/
theorem makeDirectories_of_isDirectory (h : fs.isDirectory current path = true) :
    fs.makeDirectories current path = (fs, .ok ()) := by
  obtain ⟨d, hd⟩ := isDirectory_iff.1 h
  have hb : path.bytes ≠ [] := by
    intro hb
    have hfault := (find_eq_directory_iff.1 hd).1
    simp [pathFault?, hb] at hfault
  rw [makeDirectories, makeDirectoriesWithin, if_neg hb, makeDirectory_of_find hd]
  dsimp only
  rw [orFound, hd]
  rfl

end FileSystem

end GrammarBatch
