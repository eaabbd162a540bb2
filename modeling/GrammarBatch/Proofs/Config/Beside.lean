import GrammarBatch.Config.Load
import GrammarBatch.Proofs.Config.Independent
import GrammarBatch.Proofs.Files.SpelledOut
import GrammarBatch.Proofs.Path.Parent
import Mathlib

/-!
# Directories beside a configuration file

* `Path.spelled_join`, `Path.parent?_through`: the parts of a path that is read from another one, and the path
  around one that is spelled out;
* **`Path.absolute?_join_parent?`**: what is read from the directory of a file is spelled out alike if the path of
  the file is spelled out before.
-/

namespace GrammarBatch

namespace Path

variable {p q r d : Path} {parts : List Component} {c : Component}

theorem spelled_join (hp : p.bytes ≠ []) (hq : q.isAbsolute = false) :
    spelled (p.join q).pieces = spelled p.pieces ++ spelled q.pieces := by
  rw [spelled_pieces, parts_join hp hq, List.filter_append, spelled_pieces, spelled_pieces]

theorem endsInSlash_join_eq (hp : p.bytes ≠ []) (hq : q.isAbsolute = false) :
    (p.join q).endsInSlash = (q.bytes.isEmpty || q.endsInSlash) := by
  by_cases hne : q.bytes = []
  · obtain rfl : q = ⟨[]⟩ := congrArg Path.mk hne
    exact endsInSlash_closed hp true
  · rw [endsInSlash_join p hne hq, List.isEmpty_eq_false_iff.2 hne, Bool.false_or]

theorem hasDoubleRoot_join_through (h : ∀ c ∈ parts, c ≠ .here ∧ c ≠ .root) (hq : q.isAbsolute = false) :
    ((through false parts).join q).hasDoubleRoot = false := by
  have hroot : ∀ c ∈ parts, c ≠ .root := fun c hc => (h c hc).2
  by_cases hne : q.bytes = []
  · obtain rfl : q = ⟨[]⟩ := congrArg Path.mk hne
    exact hasDoubleRoot_closed hroot false true
  · rw [hasDoubleRoot_join (bytes_through_ne_nil h false) hne hq, hasDoubleRoot_through hroot]

theorem isIdle_bytes (hc : c ≠ .here) : isIdle c.bytes = false := by
  cases c with
  | here => exact absurd rfl hc
  | name n => exact isIdle_name n
  | _ => rfl

theorem dropIdle_parts (h : ∀ c ∈ parts, c ≠ .here) :
    dropIdle (parts.map Component.bytes) = parts.map Component.bytes := by
  refine dropIdle_of_forall fun b hb => ?_
  obtain ⟨c, hc, rfl⟩ := List.mem_map.1 hb
  exact isIdle_bytes (h c hc)

theorem parent?_through {last : Component} (h : ∀ c ∈ parts ++ [last], c ≠ .here ∧ c ≠ .root) :
    (through false (parts ++ [last])).parent? = some (through false parts) := by
  have hhere : ∀ c ∈ parts ++ [last], c ≠ .here := fun c hc => (h c hc).1
  have hroot : ∀ c ∈ parts ++ [last], c ≠ .root := fun c hc => (h c hc).2
  have hfront {c : Component} (hc : c ∈ parts) : c ∈ parts ++ [last] := List.mem_append_left _ hc
  have hpieces : (through false (parts ++ [last])).pieces = [] :: (parts ++ [last]).map Component.bytes := by
    have hbytes : through false (parts ++ [last]) =
        ⟨slash :: (ofPieces ((parts ++ [last]).map Component.bytes)).bytes⟩ :=
      congrArg Path.mk (bytes_through hroot false)
    rw [hbytes, pieces_slash_cons, pieces, splitOn_bytes_ofPieces hroot (by simp)]
  have hcounts : dropIdle ((parts ++ [last]).map Component.bytes) = parts.map Component.bytes ++ [last.bytes] := by
    rw [dropIdle_parts hhere, List.map_append, List.map_singleton]
  rw [parent?_of_dropIdle_eq hpieces hcounts, isAbsolute_through hroot, if_pos rfl,
    dropIdle_parts fun c hc => hhere c (hfront hc)]
  exact congrArg (some ∘ Path.mk) (bytes_through (fun c hc => hroot c (hfront hc)) false).symm

theorem bytes_join_ne_nil (h : r.bytes ≠ [] ∨ d.bytes ≠ []) : (r.join d).bytes ≠ [] := by
  by_cases habs : d.isAbsolute = true
  · rw [join, if_pos habs]
    exact FileSystem.bytes_ne_nil_of_isAbsolute habs
  · rw [bytes_join r (Bool.eq_false_iff.2 habs)]
    simp only [ne_eq, List.append_eq_nil_iff]
    tauto

/-- What is read from a directory is spelled out as it is from that directory spelled out, unless both are
empty. -/
theorem absolute?_join_through (here : Place) (hr : r.isAbsolute = false) (hne : r.bytes ≠ [] ∨ d.bytes ≠ []) :
    (r.join d).absolute? here.toPath =
      ((through false (here.names.reverse.map .name ++ spelled r.pieces)).join d).absolute? here.toPath := by
  by_cases habs : d.isAbsolute = true
  · rw [join, join, if_pos habs, if_pos habs]
  have hd : d.isAbsolute = false := Bool.eq_false_iff.2 habs
  have hbytes : (r.join d).bytes ≠ [] := bytes_join_ne_nil hne
  have hjoined : (r.join d).isAbsolute = false ∧
      spelled (r.join d).pieces = spelled r.pieces ++ spelled d.pieces ∧
      (r.join d).endsInSlash = (d.bytes.isEmpty || d.endsInSlash) := by
    by_cases hnil : r.bytes = []
    · have hdne : d.bytes ≠ [] := hne.resolve_left (absurd hnil)
      obtain rfl : r = ⟨[]⟩ := congrArg Path.mk hnil
      rw [join_of_bytes_eq_nil rfl, List.isEmpty_eq_false_iff.2 hdne, Bool.false_or]
      exact ⟨hd, rfl, rfl⟩
    · exact ⟨(isAbsolute_join_eq hnil hd).trans hr, spelled_join hnil hd, endsInSlash_join_eq hnil hd⟩
  obtain ⟨hrel, hspelled, hend⟩ := hjoined
  have hparts : ∀ c ∈ here.names.reverse.map .name ++ spelled r.pieces, c ≠ .here ∧ c ≠ .root :=
    fun c hc => ne_of_mem_through hc
  generalize hthrough : through false (here.names.reverse.map .name ++ spelled r.pieces) = around
  have haround : around.bytes ≠ [] := hthrough ▸ bytes_through_ne_nil hparts false
  have habs' : (around.join d).isAbsolute = true := by
    rw [← hthrough]
    exact isAbsolute_join (isAbsolute_through (fun c hc => (hparts c hc).2) false) d
  have hspelled' : spelled (around.join d).pieces =
      here.names.reverse.map .name ++ spelled r.pieces ++ spelled d.pieces := by
    have haround' : spelled around.pieces = here.names.reverse.map .name ++ spelled r.pieces :=
      hthrough ▸ spelled_through hparts false false
    rw [spelled_join haround hd, haround']
  have hdouble : (around.join d).hasDoubleRoot = false := hthrough ▸ hasDoubleRoot_join_through hparts hd
  have hbytes' : (around.join d).bytes ≠ [] := bytes_join_ne_nil (Or.inl haround)
  rw [absolute?_eq_through hbytes, absolute?_eq_through hbytes', hrel, habs', hspelled, hspelled', hend,
    endsInSlash_join_eq haround hd, hasDoubleRoot_of_relative hrel, hdouble]
  simp

theorem resolve_join_through (here : Place) (hr : r.isAbsolute = false) (hne : r.bytes ≠ [] ∨ d.bytes ≠ []) :
    resolve (some here.toPath) (r.join d) = resolve (some here.toPath)
      ((through false (here.names.reverse.map .name ++ spelled r.pieces)).join d) := by
  obtain ⟨q, hq⟩ : ∃ q, (r.join d).absolute? here.toPath = some q :=
    Option.ne_none_iff_exists'.1 fun hnone => bytes_join_ne_nil hne (absolute?_eq_none_iff.1 hnone)
  rw [resolve_some_eq_ok.2 hq, eq_comm, resolve_some_eq_ok, ← absolute?_join_through here hr hne, hq]

theorem parent?_of_absolute? {here : Place} {front : List Component} {n : Name} (hrel : p.isAbsolute = false)
    (hs : p.endsInSlash = false) (hparts : p.parts = front ++ [.name n]) (hq : p.absolute? here.toPath = some q) :
    ∃ r, p.parent? = some r ∧ r.isAbsolute = false ∧
      q.parent? = some (through false (here.names.reverse.map .name ++ spelled r.pieces)) := by
  have hne : p.bytes ≠ [] := by
    intro hb
    simp [parts, pieces, hb, Component.ofPiece?] at hparts
  obtain ⟨r, hr⟩ := exists_parent?_of_relative hrel hne
  have hspelled : spelled p.pieces = spelled r.pieces ++ [.name n] := by
    have hlast : spelled p.pieces = front.filter (· != .here) ++ [.name n] := by
      rw [spelled_pieces, hparts, List.filter_append]
      rfl
    rw [spelled_parent? hr, hlast, List.dropLast_concat]
  refine ⟨r, hr, (isAbsolute_parent? hr).trans hrel, ?_⟩
  rw [absolute?_eq_through hne, hrel, if_neg Bool.false_ne_true, hs, hasDoubleRoot_of_relative hrel, hspelled,
    ← List.append_assoc] at hq
  obtain rfl := Option.some.inj hq
  refine parent?_through fun c hc => ?_
  rw [List.append_assoc, ← hspelled] at hc
  exact ne_of_mem_through hc

end Path

namespace Overrides

variable {o : Overrides} {file : BuildConfig} {here : Option Path} {r r' : Path}

/-- The directories of a configuration that stay when the overrides are laid over it. -/
def leaves (o : Overrides) (c : BuildConfig) : List Path :=
  (if o.sourceDir = none then [c.sourceDir] else []) ++ (if o.outputDir = none then [c.outputDir] else []) ++
    if o.libDir = none then c.libDir.toList else []

theorem resolve_getD_congr {given : Option Path} {d : Path}
    (h : given = none → Path.resolve here (r.join d) = Path.resolve here (r'.join d)) :
    Path.resolve here (given.getD (r.join d)) = Path.resolve here (given.getD (r'.join d)) := by
  cases given with
  | none => exact h rfl
  | some _ => rfl

theorem absolute_apply_congr
    (h : ∀ d ∈ o.leaves file, Path.resolve here (r.join d) = Path.resolve here (r'.join d)) :
    (o.apply (file.rootedAt r)).absolute here = (o.apply (file.rootedAt r')).absolute here := by
  have hs : Path.resolve here (o.apply (file.rootedAt r)).sourceDir =
      Path.resolve here (o.apply (file.rootedAt r')).sourceDir :=
    resolve_getD_congr fun hgiven => h file.sourceDir (by simp [leaves, hgiven])
  have ho : Path.resolve here (o.apply (file.rootedAt r)).outputDir =
      Path.resolve here (o.apply (file.rootedAt r')).outputDir :=
    resolve_getD_congr fun hgiven => h file.outputDir (by simp [leaves, hgiven])
  have hl : (o.apply (file.rootedAt r)).libDir.mapM (Path.resolve here) =
      (o.apply (file.rootedAt r')).libDir.mapM (Path.resolve here) := by
    change (o.libDir.or (file.libDir.map r.join)).mapM _ = (o.libDir.or (file.libDir.map r'.join)).mapM _
    cases hgiven : o.libDir with
    | none =>
      cases hlib : file.libDir with
      | none => rfl
      | some d =>
        have hd := h d (by simp [leaves, hgiven, hlib])
        simp only [Option.map_some, Option.none_or, Option.mapM_some, hd]
    | some _ => rfl
  rw [BuildConfig.absolute, BuildConfig.absolute, hs, ho, hl]
  rfl

end Overrides

namespace BuildConfig

variable {fs : FileSystem} {current : Place} {p q here : Path} {text : String} {o : Overrides}

theorem prepare_of_readText (h : fs.readText current p = .ok text) : prepare fs current (some p) o =
    ofText text >>= fun file => (o.apply (file.rootedAt (p.parent?.getD ⟨[]⟩))).absolute (fs.pathOf? current) := by
  rw [prepare, load, h]
  change ((ofText text >>= fun file => _) >>= fun base => _) = _
  cases ofText text <;> rfl

/-- **A configuration file that is named by a relative path gives the configuration that it gives when its path is
spelled out, or fails as it does then, if the system takes that path. The exception is an empty directory in a file
that is named by its bare name.** -/
theorem prepare_spelledOut (hcur : fs.pathOf? current = some here)
    (hnames : ∀ n ∈ current.names, n.bytes.length ≤ FileSystem.maxName) (hrel : p.isAbsolute = false)
    (hread : fs.readText current p = .ok text) (hq : p.absolute? here = some q)
    (hfault : FileSystem.pathFault? q = none)
    (hbare : p.parent? = some ⟨[]⟩ → ∀ file, ofText text = .ok file → ∀ d ∈ o.leaves file, d.bytes ≠ []) :
    prepare fs current (some q) o = prepare fs current (some p) o := by
  obtain ⟨d, e, hf, he⟩ := FileSystem.exists_find_of_readText hread
  obtain ⟨hs, front, n, hparts⟩ := FileSystem.exists_parts_of_find hcur hrel hf he
  have hread' := FileSystem.readText_of_absolute? hcur hrel hnames hq hfault hread
  have hplace := FileSystem.eq_toPath_of_pathOf? hcur
  rw [hplace] at hq
  obtain ⟨r, hr, hrrel, hqr⟩ := Path.parent?_of_absolute? hrel hs hparts hq
  rw [prepare_of_readText hread, prepare_of_readText hread', hr, hqr, hcur, hplace]
  cases hfile : ofText text with
  | error x => rfl
  | ok file =>
    refine Overrides.absolute_apply_congr fun dir hdir => ?_
    have hne : r.bytes ≠ [] ∨ dir.bytes ≠ [] := by
      by_cases hnil : r.bytes = []
      · obtain rfl : r = ⟨[]⟩ := congrArg Path.mk hnil
        exact Or.inr (hbare hr file hfile dir hdir)
      · exact Or.inl hnil
    exact (Path.resolve_join_through current hrrel hne).symm

def besidesText : String := "\x7b\"source-dir\": \"\", \"lib-dir\": \"/lib\"\x7d"

/-- A file that gives an empty source directory, next to a directory. -/
def besides : FileSystem where
  entries :=
    [(.ofNames [.ofString "home"], .directory),
      (.ofNames [.ofString "deep", .ofString "home"], .directory),
      (.ofNames [.ofString "grist.json", .ofString "home"], .file ⟨Utf8.encode besidesText, false, none⟩)]
  nodup := by decide

theorem ofText_besides :
    ofText besidesText = .ok { sourceDir := .ofString "", libDir := some (.ofString "/lib") } := by
  cbv

def besidesOverrides : Overrides := { outputDir := some (.ofString "out") }

/-- Through a directory and back. -/
def roundabout : BuildConfig where
  sourceDir := .ofString "/home/deep/../"
  outputDir := .ofString "/home/out"
  libDir := some (.ofString "/lib")

/-- With directories in its path the file may give an empty one. -/
theorem prepare_spelledOut_besides :
    prepare besides (.ofNames [.ofString "home"]) (some (.ofString "./deep/.././grist.json")) besidesOverrides =
      .ok roundabout ∧
    prepare besides (.ofNames [.ofString "home"]) (some (.ofString "/home/deep/../grist.json")) besidesOverrides =
      .ok roundabout := by
  have hcur : besides.pathOf? (.ofNames [.ofString "home"]) = some (.ofString "/home") := by cbv
  have hnames : ∀ n ∈ (Place.ofNames [.ofString "home"]).names, n.bytes.length ≤ FileSystem.maxName := by decide
  have hrel : (Path.ofString "./deep/.././grist.json").isAbsolute = false := by decide
  have hread : besides.readText (.ofNames [.ofString "home"]) (.ofString "./deep/.././grist.json") =
      .ok besidesText := by cbv
  have hq : (Path.ofString "./deep/.././grist.json").absolute? (.ofString "/home") =
      some (.ofString "/home/deep/../grist.json") := by cbv
  have hfault : FileSystem.pathFault? (.ofString "/home/deep/../grist.json") = none := by cbv
  have hparent : (Path.ofString "./deep/.././grist.json").parent? ≠ some ⟨[]⟩ := by decide
  have hbeside : prepare besides (.ofNames [.ofString "home"]) (some (.ofString "./deep/.././grist.json"))
      besidesOverrides = .ok roundabout := by
    rw [prepare_of_readText hread, ofText_besides]
    cbv
  refine ⟨hbeside, ?_⟩
  rw [prepare_spelledOut hcur hnames hrel hread hq hfault fun h => absurd h hparent, hbeside]

/-- With its bare name it may not. -/
theorem prepare_bare :
    prepare besides (.ofNames [.ofString "home"]) (some (.ofString "grist.json")) {} =
      .error (.unresolved ⟨[]⟩ .emptyPath) ∧
    (Path.ofString "grist.json").absolute? (.ofString "/home") = some (.ofString "/home/grist.json") ∧
    prepare besides (.ofNames [.ofString "home"]) (some (.ofString "/home/grist.json")) {} = .ok
      { sourceDir := .ofString "/home/", outputDir := .ofString "/home/target/generated-sources/grammars",
        libDir := some (.ofString "/lib") } := by
  have hread : besides.readText (.ofNames [.ofString "home"]) (.ofString "grist.json") = .ok besidesText := by cbv
  have hread' : besides.readText (.ofNames [.ofString "home"]) (.ofString "/home/grist.json") = .ok besidesText := by
    cbv
  rw [prepare_of_readText hread, prepare_of_readText hread', ofText_besides]
  exact ⟨by cbv, by cbv, by cbv⟩

end BuildConfig

end GrammarBatch
