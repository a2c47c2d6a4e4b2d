import YamlWeave.Proofs.Resolve.Asked

/-!
# The phases of including

A node that includes files is worked off in three phases: its names are read, then the files are
loaded, then their documents are put together. No phase begins before the one before it has come to
its end, and each fails as soon as it can: at the first node that names no file, at the first file
that has no document, at the first document of another kind (`Resolver.IncludesTo`). This fixes the
outcome in all cases (`included_eq_iff`).
-/

set_option autoImplicit false

namespace YamlWeave

namespace Value

variable {operand node : Value} {names : List String}

/-- Whether a node names a file. -/
def namesFile : Value → Bool
  | .string _ | .number _ | .bool _ => true
  | _ => false

/-- A node names a file when it has a text. Null is a scalar without a text, and names none. -/
theorem namesFile_eq_isSome (node : Value) : node.namesFile = node.scalarText?.isSome := by
  cases node <;> rfl

theorem namesFile_iff : node.namesFile = true ↔ ∃ name, node.fileName = .ok name := by
  simp only [namesFile_eq_isSome, Option.isSome_iff_exists, fileName_eq_ok]

/-- A node that names no file is refused as it is written, in every world alike. -/
theorem fileName_of_not_namesFile (h : node.namesFile = false) :
    node.fileName = .error (.wrongFileName node.written "path must be a scalar") := by
  rw [namesFile_eq_isSome, Option.isSome_eq_false_iff, Option.isNone_iff_eq_none] at h
  rw [fileName, h]

/-- An operand is accepted when all its nodes name files. There need not be any: an empty sequence
is accepted here and refused in the last phase. -/
theorem fileNames_of_namesFile (h : ∀ node ∈ operand.naming, node.namesFile = true) :
    operand.fileNames = .ok operand.listed := by
  cases hnames : operand.fileNames with
  | ok names => rw [listed_of_fileNames_eq_ok hnames]
  | error e =>
    rw [fileNames_eq_mapM] at hnames
    obtain ⟨front, node, back, hsplit, -, hnode⟩ := mapM_eq_error.mp hnames
    obtain ⟨name, hname⟩ :=
      namesFile_iff.mp (h node (hsplit ▸ List.mem_append_right front List.mem_cons_self))
    cases hname.symm.trans hnode

/-- Conversely, all nodes of an operand that is accepted name files. -/
theorem namesFile_of_fileNames (h : operand.fileNames = .ok names) :
    ∀ node ∈ operand.naming, node.namesFile = true := by
  rw [fileNames_eq_mapM] at h
  intro node hnode
  obtain ⟨name, -, hname⟩ := exists_ok_of_mapM_eq_ok h hnode
  exact namesFile_iff.mpr ⟨name, hname⟩

end Value

namespace Resolver

variable {r : Resolver} {operand : Value} {outcome : Except Failure Value}

/-- Files are loaded with their paths when each of them is loaded. A row of documents is described
by its paths and what these hold, and no longer by steps. -/
theorem mapM_loadNamed_eq_ok {paths : List Path} {documents : List (Path × Value)} :
    paths.mapM r.loadNamed = .ok documents ↔
      documents.map (·.1) = paths ∧ ∀ document ∈ documents, r.load document.1 = .ok document.2 := by
  refine ⟨load_of_mapM_loadNamed, ?_⟩
  rintro ⟨rfl, hdocuments⟩
  rw [mapM_eq_ok, List.forall₂_map_left_iff, List.forall₂_same]
  exact fun document hdocument =>
    loadNamed_eq_ok.mpr ⟨document.2, hdocuments document hdocument, rfl⟩

/-- How a node that includes files comes out. -/
inductive IncludesTo (r : Resolver) (operand : Value) : Except Failure Value → Prop
  /-- The first node that names no file is refused. -/
  | noName {front back : List Value} {node : Value}
      (hsplit : operand.naming = front ++ node :: back)
      (hfront : ∀ earlier ∈ front, earlier.namesFile = true) (hnode : node.namesFile = false) :
      IncludesTo r operand (.error (.wrongFileName node.written "path must be a scalar"))
  /-- All nodes name files, and the first file without a document fails. -/
  | noDocument {front back : List String} {name : String} {e : Failure}
      (hnames : ∀ node ∈ operand.naming, node.namesFile = true)
      (hsplit : operand.listed = front ++ name :: back)
      (hfront : ∀ earlier ∈ front, ∃ D, r.load (r.pathOf earlier) = .ok D)
      (hname : r.load (r.pathOf name) = .error e) : IncludesTo r operand (.error e)
  /-- All files have documents, and these are put together. -/
  | documents {documents : List (Path × Value)} {outcome : Except Failure Value}
      (hnames : ∀ node ∈ operand.naming, node.namesFile = true)
      (hpaths : documents.map (·.1) = operand.listed.map r.pathOf)
      (hdocuments : ∀ document ∈ documents, r.load document.1 = .ok document.2)
      (hjoins : Include.JoinsTo documents outcome) : IncludesTo r operand outcome

/-- A node that names no file ends the first phase, before any file is loaded. Nodes in front of it
name files, so it is the first one that does not. -/
theorem included_of_noName {front back : List Value} {node : Value}
    (hsplit : operand.naming = front ++ node :: back)
    (hfront : ∀ earlier ∈ front, earlier.namesFile = true) (hnode : node.namesFile = false) :
    r.included operand = .error (.wrongFileName node.written "path must be a scalar") := by
  have hnames : operand.fileNames =
      .error (.wrongFileName node.written "path must be a scalar") := by
    rw [Value.fileNames_eq_mapM]
    refine mapM_eq_error.mpr ⟨front, node, back, hsplit, fun earlier hearlier => ?_,
      Value.fileName_of_not_namesFile hnode⟩
    exact Value.namesFile_iff.mp (hfront earlier hearlier)
  rw [included, hnames]
  rfl

/-- A file without a document ends the second phase. Its failure is passed on as it is. -/
theorem included_of_noDocument {front back : List String} {name : String} {e : Failure}
    (hnames : ∀ node ∈ operand.naming, node.namesFile = true)
    (hsplit : operand.listed = front ++ name :: back)
    (hfront : ∀ earlier ∈ front, ∃ D, r.load (r.pathOf earlier) = .ok D)
    (hname : r.load (r.pathOf name) = .error e) : r.included operand = .error e := by
  rw [included_of_fileNames (Value.fileNames_of_namesFile hnames), List.mapM_map, bind_eq_error]
  refine .inl (mapM_eq_error.mpr ⟨front, name, back, hsplit, fun earlier hearlier => ?_,
    loadNamed_eq_error.mpr hname⟩)
  exact loaded_iff_loadNamed.mpr (hfront earlier hearlier)

/-- Once all files are loaded, what is left is to put the documents together. This is the third
phase, and its outcome is that of `Include.JoinsTo`. -/
theorem included_of_documents {documents : List (Path × Value)}
    (hnames : ∀ node ∈ operand.naming, node.namesFile = true)
    (hpaths : documents.map (·.1) = operand.listed.map r.pathOf)
    (hdocuments : ∀ document ∈ documents, r.load document.1 = .ok document.2) :
    r.included operand = Include.joined documents := by
  rw [included_of_fileNames (Value.fileNames_of_namesFile hnames),
    mapM_loadNamed_eq_ok.mpr ⟨hpaths, hdocuments⟩]
  rfl

theorem IncludesTo.eq (h : r.IncludesTo operand outcome) : r.included operand = outcome := by
  cases h with
  | noName hsplit hfront hnode => exact included_of_noName hsplit hfront hnode
  | noDocument hnames hsplit hfront hname => exact included_of_noDocument hnames hsplit hfront hname
  | documents hnames hpaths hdocuments hjoins =>
    rw [included_of_documents hnames hpaths hdocuments, hjoins.eq]

/-- Every node that includes files comes out in one of these ways. The phase is that of the first
step that fails, or the last one. -/
theorem includesTo_included (r : Resolver) (operand : Value) :
    r.IncludesTo operand (r.included operand) := by
  cases hnames : operand.fileNames with
  | error e =>
    rw [Value.fileNames_eq_mapM] at hnames
    obtain ⟨front, node, back, hsplit, hfront, hnode⟩ := mapM_eq_error.mp hnames
    have hfront : ∀ earlier ∈ front, earlier.namesFile = true :=
      fun earlier hearlier => Value.namesFile_iff.mpr (hfront earlier hearlier)
    have hnode : node.namesFile = false := by
      rw [← Bool.not_eq_true, Value.namesFile_iff, hnode]
      exact nofun
    rw [included_of_noName hsplit hfront hnode]
    exact .noName hsplit hfront hnode
  | ok names =>
    have hall := Value.namesFile_of_fileNames hnames
    cases hloads : operand.listed.mapM fun name => r.loadNamed (r.pathOf name) with
    | error e =>
      obtain ⟨front, name, back, hsplit, hfront, hname⟩ := mapM_eq_error.mp hloads
      have hfront : ∀ earlier ∈ front, ∃ D, r.load (r.pathOf earlier) = .ok D :=
        fun earlier hearlier => loaded_iff_loadNamed.mp (hfront earlier hearlier)
      have hname := loadNamed_eq_error.mp hname
      rw [included_of_noDocument hall hsplit hfront hname]
      exact .noDocument hall hsplit hfront hname
    | ok documents =>
      have hloads : (operand.listed.map r.pathOf).mapM r.loadNamed = .ok documents := by
        rwa [List.mapM_map]
      obtain ⟨hpaths, hdocuments⟩ := mapM_loadNamed_eq_ok.mp hloads
      rw [included_of_documents hall hpaths hdocuments]
      exact .documents hall hpaths hdocuments (Include.joinsTo_joined documents)

/-- Phases fix the outcome: there is one way for each operand, and it is the one that is
computed. -/
theorem included_eq_iff : r.included operand = outcome ↔ r.IncludesTo operand outcome :=
  ⟨fun h => h ▸ includesTo_included r operand, IncludesTo.eq⟩

/-- A node that names no file is refused whatever can be loaded. The first phase looks at the
operand alone. -/
theorem included_eq_of_noName {node : Value} (hnode : node ∈ operand.naming)
    (hname : node.namesFile = false) (r r' : Resolver) :
    r'.included operand = r.included operand := by
  cases hnames : operand.fileNames with
  | error e =>
    rw [included, included, hnames]
    rfl
  | ok names =>
    rw [Value.namesFile_of_fileNames hnames node hnode] at hname
    cases hname

/-- What is made of documents is of their kind. It is never a scalar, and one document of another
kind would have been refused. -/
theorem kind_of_included {u : Value} (h : r.included operand = .ok u) :
    u.kind ≠ .scalar ∧ ∀ name ∈ operand.listed, ∃ D,
      r.load (r.pathOf name) = .ok D ∧ D.kind = u.kind := by
  cases included_eq_iff.mp h with
  | documents hnames hpaths hdocuments hjoins =>
    refine ⟨hjoins.kind.1, fun name hname => ?_⟩
    have hpath : r.pathOf name ∈ operand.listed.map r.pathOf := List.mem_map_of_mem hname
    rw [← hpaths] at hpath
    obtain ⟨document, hdocument, heq⟩ := List.mem_map.mp hpath
    rw [← heq]
    exact ⟨document.2, hdocuments document hdocument, hjoins.kind.2 document hdocument⟩

end Resolver

end YamlWeave
