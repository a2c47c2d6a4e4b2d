import YamlWeave.Proofs.Loader.Tags

/-!
# Failures tell the truth

A failure is passed up through every load that it happens in, and each of these has a path of its
own. The path that a failure names is nevertheless the one that is to blame: what the failure says
of it can be found out by reading that path, or by loading it alone (`load_blames_truly`). It is the
source, or the end of a chain of the load (`exists_meets_of_load_eq_error`).
-/

set_option autoImplicit false

namespace YamlWeave

/-- The path that a failure names. -/
def Failure.path? : Failure → Option Path
  | .unreadable path _ | .notYaml path | .unmergeable path _ | .mistyped path _ => some path
  | .mixedInclude _ _ path | .scalarInclude path | .circularInclude path => some path
  | _ => none

/-- Files that one node lists, in the value of a source whose load is reached. -/
inductive IncludesTogether (w : World) (options : Options) (source : Source) : List Path → Prop
  | node {options' : Options} {source' : Source} {v content : Value} {tag : Tag}
      {names : List String} (hreaches : Reaches w options source options' source')
      (hvalue : source'.Holds w v) (hnode : (Value.tagged tag content).Within v)
      (htag : Handler.ofTag? tag.text = some .inclusion) (hnames : content.fileNames = .ok names) :
      IncludesTogether w options source (names.map fun name => options'.rootFor source' / ⟨name⟩)

variable {w : World} {options : Options} {source : Source} {e : Failure}

/-- Files that one node lists are at the ends of chains, so what is known of chains holds of
them. -/
theorem IncludesTogether.meets {files : List Path} (h : IncludesTogether w options source files)
    {p : Path} (hp : p ∈ files) : Meets w options source (.file p) := by
  cases h with
  | @node _ _ v content tag _ hreaches hvalue hnode htag hnames =>
    obtain ⟨name, hname, hp⟩ := List.mem_map.mp hp
    have hlisted : name ∈ content.listed := Value.listed_of_fileNames_eq_ok hnames ▸ hname
    have hincludes : v.Includes name := ⟨tag, content, hnode, htag, hlisted⟩
    exact (hreaches.trans (.next hvalue hincludes hp.symm (.self _ _))).meets

/-- When documents cannot be put together, they are what the files of one node are on their own. The
loads inside had other roots and files open, which made no difference to documents that came out. -/
theorem exists_documents_of_load_eq_error (h : load w options source = .error e)
    (he : e.isOfDocuments = true) :
    ∃ documents, IncludesTogether w options source (documents.map (·.1)) ∧
      (∀ document ∈ documents, loadAlone w options.mergeKeys document.1 = .ok document.2) ∧
      Include.joined documents = .error e := by
  have hcircular : ∀ path, e ≠ .circularInclude path := by
    rintro path rfl
    cases he
  obtain ⟨options', source', hreaches, hrefused⟩ := exists_refused_of_load_eq_error h hcircular
  cases hrefused with
  | unreadable => cases he
  | @text _ text _ htext hfault =>
    cases hfault with
    | node hvalue hnode hfault =>
      cases hfault with
      | documents htag hnames hdocuments hjoined =>
        obtain ⟨hpaths, hloaded⟩ := Resolver.load_of_mapM_loadNamed hdocuments
        refine ⟨_, ?_, fun document hdocument => ?_, hjoined⟩
        · rw [hpaths]
          exact .node hreaches ⟨text, htext, hvalue⟩ hnode htag hnames
        · rw [← hreaches.mergeKeys]
          exact hloaded document hdocument
      | _ => cases he
    | _ => cases he

/-- A scalar that cannot be put together is the document of the first file of a node. The document
is a scalar in the narrow sense, since loads leave no tag behind. -/
theorem exists_scalar_of_load_eq_error {path : Path}
    (h : load w options source = .error (.scalarInclude path)) :
    ∃ others D, IncludesTogether w options source (path :: others) ∧
      loadAlone w options.mergeKeys path = .ok D ∧ D.isScalar = true := by
  obtain ⟨documents, htogether, hloaded, hjoined⟩ := exists_documents_of_load_eq_error h rfl
  rcases Include.joined_eq_error hjoined with
    ⟨-, he⟩ | ⟨file, first, rest, rfl, ⟨other, -, -, he⟩ | ⟨hkind, he⟩⟩
  · cases he
  · cases he
  · cases he
    have hfirst := hloaded (path, first) List.mem_cons_self
    exact ⟨_, first, htogether, hfirst, (Value.kept_tagFree.load hfirst).isScalar hkind⟩

/-- A document of another kind is that of a later file of a node than the first. The failure names
the kinds of both and the path of the later one. -/
theorem exists_kinds_of_load_eq_error {first found : Kind} {path : Path}
    (h : load w options source = .error (.mixedInclude first found path)) :
    ∃ file others D D', IncludesTogether w options source (file :: others) ∧ path ∈ others ∧
      loadAlone w options.mergeKeys file = .ok D ∧ D.kind = first ∧
      loadAlone w options.mergeKeys path = .ok D' ∧ D'.kind = found ∧ found ≠ first := by
  obtain ⟨documents, htogether, hloaded, hjoined⟩ := exists_documents_of_load_eq_error h rfl
  rcases Include.joined_eq_error hjoined with
    ⟨-, he⟩ | ⟨file, D, rest, rfl, ⟨⟨q, D'⟩, hother, hne, he⟩ | ⟨-, he⟩⟩
  · cases he
  · cases he
    have hfile := hloaded (file, D) List.mem_cons_self
    have hq := hloaded (q, D') (List.mem_cons_of_mem _ hother)
    have hmem : q ∈ rest.map (·.1) := List.mem_map_of_mem hother
    exact ⟨file, _, D, D', htogether, hmem, hfile, rfl, hq, rfl, hne⟩
  · cases he

/-- A load that is refused for its own sake is blamed itself. Documents that cannot be put together
are left out, because there the path is that of an included file. -/
theorem Refused.name_eq (h : Refused w options source e) (he : e.isOfDocuments = false)
    {path : Path} (hpath : e.path? = some path) : source.name = path := by
  cases h with
  | unreadable => exact Option.some.inj hpath
  | text _ hfault =>
    cases hfault with
    | notYaml => exact Option.some.inj hpath
    | unmergeable => exact Option.some.inj hpath
    | node _ _ hnode =>
      cases hnode with
      | documents _ _ _ hjoined =>
        rw [Include.isOfDocuments_of_joined hjoined] at he
        cases he
      | _ => cases hpath

/-- The path that a failure names is the source, or the end of a chain of the load. For a text
without a path this is the name that stands for it in messages. -/
theorem exists_meets_of_load_eq_error (h : load w options source = .error e) {path : Path}
    (hpath : e.path? = some path) :
    ∃ source', Meets w options source source' ∧ source'.name = path := by
  cases e with
  | circularInclude p =>
    cases hpath
    obtain ⟨paths, hchain, -⟩ := exists_chainOf_of_circular h
    exact ⟨.file path, .file hchain, rfl⟩
  | mixedInclude first found p =>
    cases hpath
    obtain ⟨file, others, -, -, htogether, hmem, -⟩ := exists_kinds_of_load_eq_error h
    exact ⟨.file path, htogether.meets (List.mem_cons_of_mem file hmem), rfl⟩
  | scalarInclude p =>
    cases hpath
    obtain ⟨others, -, htogether, -⟩ := exists_scalar_of_load_eq_error h
    exact ⟨.file path, htogether.meets List.mem_cons_self, rfl⟩
  | emptyInclude => cases hpath
  | _ =>
    obtain ⟨options', source', hreaches, hrefused⟩ :=
      exists_refused_of_load_eq_error h fun _ => nofun
    exact ⟨source', hreaches.meets, hrefused.name_eq rfl hpath⟩

/-- **Failures tell the truth about the files that they name.** Reading the path of an `unreadable`
fails as told. The text of a `notYaml` has no value. The document of an `unmergeable` has its tags
resolved, and merging refuses the outcome as told. The path of a `scalarInclude` is that of a
scalar, and the path of a `mixedInclude` that of a document of the kind found, listed after a file
of the other kind. Each path is the source, or the end of a chain of the load. -/
theorem load_blames_truly (w : World) (options : Options) (source : Source) :
    (∀ path fault, load w options source = .error (.unreadable path fault) →
      w.read path = .error fault) ∧
    (∀ path, load w options source = .error (.notYaml path) →
      ∃ source' text, Meets w options source source' ∧ source'.name = path ∧
        source'.text? w = .ok text ∧ Document.value? text = none) ∧
    (∀ path fault, load w options source = .error (.unmergeable path fault) →
      ∃ options' source' u, Reaches w options source options' source' ∧ source'.name = path ∧
        source'.ResolvesTo w options' u ∧ u.merged = .error fault) ∧
    (∀ path, load w options source = .error (.scalarInclude path) →
      ∃ others D, IncludesTogether w options source (path :: others) ∧
        loadAlone w options.mergeKeys path = .ok D ∧ D.isScalar = true) ∧
    (∀ first found path, load w options source = .error (.mixedInclude first found path) →
      ∃ file others D D', IncludesTogether w options source (file :: others) ∧ path ∈ others ∧
        loadAlone w options.mergeKeys file = .ok D ∧ D.kind = first ∧
        loadAlone w options.mergeKeys path = .ok D' ∧ D'.kind = found ∧ found ≠ first) ∧
    ∀ e path, load w options source = .error e → e.path? = some path →
      ∃ source', Meets w options source source' ∧ source'.name = path := by
  refine ⟨fun _ _ => read_eq_error_of_load, fun _ => exists_text_of_load_eq_notYaml,
    fun _ _ => exists_resolvesTo_of_load_eq_unmergeable, fun _ => exists_scalar_of_load_eq_error,
    fun _ _ _ => exists_kinds_of_load_eq_error, ?_⟩
  intro e path h hpath
  exact exists_meets_of_load_eq_error h hpath

end YamlWeave
