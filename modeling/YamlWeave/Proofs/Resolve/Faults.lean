import YamlWeave.Proofs.Include
import YamlWeave.Proofs.Resolve.Demand

/-!
# Nodes at fault

A node with a tag may be refused for what it is itself (`Resolver.AtFault`): its tag is not known,
its content has the wrong shape, or the documents that it includes cannot be put together. A node
whose outcome stands at once fails for no other reason (`atFault_of_demand_eq_error`), and a node
that includes files only fails otherwise as the first of them does that is not loaded
(`included_eq_error`).
-/

set_option autoImplicit false

namespace YamlWeave

namespace Failure

/-- Whether a failure is that of documents that cannot be put together. -/
def isOfDocuments : Failure → Bool
  | .emptyInclude | .mixedInclude _ _ _ | .scalarInclude _ => true
  | _ => false

/-- Whether a failure is one that the handler of a tag finds itself, and not one of a load. -/
def isOfHandler : Failure → Bool
  | .unknownTag _ | .malformedTag _ | .wrongOperand _ _ | .wrongFileName _ _ => true
  | e => e.isOfDocuments

/-- A handler puts documents together, so failing to is a failure of the handler. -/
theorem isOfHandler_of_isOfDocuments {e : Failure} (h : e.isOfDocuments = true) :
    e.isOfHandler = true := by
  cases e <;> first | rfl | cases h

end Failure

namespace Value

/-- A node that gives a text is a scalar. Null is a scalar too and gives none. -/
theorem isScalar_of_scalarText? {node : Value} {name : String} (h : node.scalarText? = some name) :
    node.isScalar = true := by
  cases node <;> first | rfl | cases h

/-- A node that gives no text is no scalar, unless it is null. -/
theorem isScalar_eq_false_of_scalarText? {node : Value} (hname : node.scalarText? = none)
    (hnull : node.isNull = false) : node.isScalar = false := by
  cases node with
  | null => cases hnull
  | bool | number | string => cases hname
  | _ => rfl

/-- A node names a file by its text. -/
theorem fileName_eq_ok {node : Value} {name : String} :
    node.fileName = .ok name ↔ node.scalarText? = some name := by
  unfold fileName
  split <;> simp_all

/-- A node that names no file has no text, and the failure shows what it is instead. -/
theorem fileName_eq_error {node : Value} {e : Failure} (h : node.fileName = .error e) :
    node.scalarText? = none ∧ e = .wrongFileName node.written "path must be a scalar" := by
  unfold fileName at h
  split at h <;> cases h
  exact ⟨‹_›, rfl⟩

/-- The nodes of an operand that have to name files: the elements of a sequence, and otherwise the
operand itself. -/
def naming : Value → List Value
  | .sequence nodes => nodes
  | node => [node]

/-- The names of an operand are read node by node. A single node and a sequence of one are treated
alike. -/
theorem fileNames_eq_mapM (operand : Value) : operand.fileNames = operand.naming.mapM fileName := by
  have hsingle : ∀ node : Value, [node].mapM fileName = do return [← node.fileName] := by
    intro node
    rw [List.mapM_cons, List.mapM_nil]
    cases node.fileName <;> rfl
  cases operand with
  | sequence nodes => rfl
  | _ => exact (hsingle _).symm

/-- An operand with a text names one file. -/
theorem fileNames_of_scalarText? {node : Value} {name : String}
    (h : node.scalarText? = some name) : node.fileNames = .ok [name] := by
  have hname := fileName_eq_ok.mpr h
  cases node with
  | sequence nodes => cases h
  | _ =>
    rw [fileNames, hname]
    · rfl
    · exact fun _ => nofun

/-- What has to name a file is the operand or a part of it, so it stands inside the node. -/
theorem mem_naming {operand node : Value} (h : node ∈ operand.naming) :
    node = operand ∨ node ∈ operand.parts := by
  cases operand with
  | sequence nodes => exact .inr h
  | _ => exact .inl (List.mem_singleton.mp h)

/-- An operand that is not accepted is, or has as an element, a node that gives no name. The failure
is about the first such node. -/
theorem fileNames_eq_error {content : Value} {e : Failure} (h : content.fileNames = .error e) :
    ∃ node, (node = content ∨ node ∈ content.parts) ∧ node.scalarText? = none ∧
      e = .wrongFileName node.written "path must be a scalar" := by
  rw [fileNames_eq_mapM] at h
  obtain ⟨front, node, back, hsplit, -, hnode⟩ := mapM_eq_error.mp h
  have hmem : node ∈ content.naming := hsplit ▸ List.mem_append_right front List.mem_cons_self
  exact ⟨node, mem_naming hmem, fileName_eq_error hnode⟩

end Value

/-- Documents that cannot be put together are none, or the first of them is of another kind than a
later one, or a scalar. Which later one is named is said by `Include.joined_eq_iff`. -/
theorem Include.joined_eq_error {documents : List (Path × Value)} {e : Failure}
    (h : joined documents = .error e) : documents = [] ∧ e = .emptyInclude ∨
      ∃ path first rest, documents = (path, first) :: rest ∧
        ((∃ other ∈ rest, other.2.kind ≠ first.kind ∧
            e = .mixedInclude first.kind other.2.kind other.1) ∨
          first.kind = .scalar ∧ e = .scalarInclude path) := by
  cases joined_eq_iff.mp h with
  | empty => exact .inl ⟨rfl, rfl⟩
  | mixed hfront hother =>
    exact .inr ⟨_, _, _, rfl,
      .inl ⟨_, List.mem_append_right _ List.mem_cons_self, hother, rfl⟩⟩
  | scalars hscalars =>
    exact .inr ⟨_, _, _, rfl, .inr ⟨hscalars _ List.mem_cons_self, rfl⟩⟩

theorem Include.isOfDocuments_of_joined {documents : List (Path × Value)} {e : Failure}
    (h : joined documents = .error e) : e.isOfDocuments = true := by
  cases joined_eq_iff.mp h <;> rfl

/-- Whether documents can be put together, and to what, does not hang on their paths. Paths only
show up in failures. -/
theorem Include.joined_of_values {documents others : List (Path × Value)} {u : Value}
    (h : joined documents = .ok u) (hvalues : others.map (·.2) = documents.map (·.2)) :
    joined others = .ok u := by
  have hne : documents ≠ [] → others ≠ [] := by
    rintro hne rfl
    exact hne (List.map_eq_nil_iff.mp hvalues.symm)
  have hkind : ∀ {kind : Kind}, (∀ document ∈ documents, document.2.kind = kind) →
      ∀ document ∈ others, document.2.kind = kind := by
    intro kind hdocuments
    have hall : ∀ v ∈ others.map (·.2), v.kind = kind :=
      hvalues ▸ List.forall_mem_map.mpr hdocuments
    exact List.forall_mem_map.mp hall
  cases joined_eq_iff.mp h with
  | sequences hdocuments hsequences =>
    rw [← hvalues]
    exact joined_of_sequences (hne hdocuments) (hkind hsequences)
  | mappings hdocuments hmappings =>
    have hentries : allEntries others = allEntries documents := by
      have hlists := congrArg (List.map Value.entries) hvalues
      rw [List.map_map, List.map_map] at hlists
      exact congrArg List.flatten hlists
    rw [← hentries]
    exact joined_of_kind_mapping (hne hdocuments) (hkind hmappings)

namespace Resolver

variable {r : Resolver} {tag : Tag} {content : Value} {e : Failure}

/-- A node with a tag is refused for what it is itself. -/
inductive AtFault (r : Resolver) (tag : Tag) (content : Value) : Failure → Prop
  | unknownTag (hspecific : tag.isNonSpecific = false) (htag : Handler.ofTag? tag.text = none) :
      AtFault r tag content (.unknownTag tag.text)
  | malformedTag {name : String} (htag : Handler.ofTag? tag.text = some (.function name))
      (hcontent : content.isTagged = true) : AtFault r tag content (.malformedTag tag.text)
  | wrongOperand (htag : Handler.ofTag? tag.text = some .environment)
      (hnull : content.isNull = false) (hcontent : content.isScalar = false) :
      AtFault r tag content
        (.wrongOperand tag.text "environment variable name must be a scalar")
  | wrongFileName {node : Value} (htag : Handler.ofTag? tag.text = some .inclusion)
      (hnode : node = content ∨ node ∈ content.parts) (hname : node.scalarText? = none) :
      AtFault r tag content (.wrongFileName node.written "path must be a scalar")
  /-- The documents that it includes cannot be put together. -/
  | documents {names : List String} {documents : List (Path × Value)} {e : Failure}
      (htag : Handler.ofTag? tag.text = some .inclusion) (hnames : content.fileNames = .ok names)
      (hdocuments : (names.map r.pathOf).mapM r.loadNamed = .ok documents)
      (hjoined : Include.joined documents = .error e) : AtFault r tag content e

/-- A node at fault is refused by the handler of its tag, or for having none. So it cannot be blamed
for what goes wrong inside a file. -/
theorem AtFault.isOfHandler (h : r.AtFault tag content e) : e.isOfHandler = true := by
  cases h with
  | documents _ _ _ hjoined =>
    exact Failure.isOfHandler_of_isOfDocuments (Include.isOfDocuments_of_joined hjoined)
  | _ => rfl

/-- A node whose outcome stands as a failure is at fault itself. The other nodes fail as their
content or their files do. -/
theorem atFault_of_demand_eq_error (h : r.demand tag content = .nothing (.error e)) :
    r.AtFault tag content e := by
  unfold demand at h
  split at h
  · split at h <;> cases h
  · next hspecific =>
    split at h
    · cases h
    · next htag =>
      have henv := Demand.nothing.inj h
      unfold environment at henv
      split at henv
      · cases henv
      · next hnull =>
        have hnull := Bool.eq_false_iff.mpr hnull
        split at henv <;> cases henv
        next hname =>
        exact .wrongOperand htag hnull (Value.isScalar_eq_false_of_scalarText? hname hnull)
    · next htag =>
      split at h <;> cases h
      exact .malformedTag htag rfl
    · next htag =>
      cases h
      exact .unknownTag (Bool.eq_false_iff.mpr hspecific) htag

/-- A node whose outcome stands as a value has a scalar for its content, except that a node for a
variable may have null there with tags in front of it. No text writes such a node, but values do not
exclude it, so the laws of whole values go by both cases. -/
theorem isScalar_of_demand_eq_ok {u : Value} (h : r.demand tag content = .nothing (.ok u)) :
    content.isScalar = true ∨
      Handler.ofTag? tag.text = some .environment ∧ content.isNull = true := by
  unfold demand at h
  split at h
  · left
    cases content <;> first | rfl | cases h
  · split at h
    · cases h
    · next htag =>
      have henv := Demand.nothing.inj h
      unfold environment at henv
      split at henv
      · next hnull => exact .inr ⟨htag, hnull⟩
      · split at henv
        · next name hname => exact .inl (Value.isScalar_of_scalarText? hname)
        · cases henv
    · left
      cases content <;> first | rfl | cases h
    · cases h

/-- Exactly the nodes with a tag for inclusion load files, whatever their content. -/
theorem demand_eq_files_iff :
    r.demand tag content = .files ↔
      tag.isNonSpecific = false ∧ Handler.ofTag? tag.text = some .inclusion := by
  cases hspecific : tag.isNonSpecific with
  | true => cases content <;> simp [demand, hspecific]
  | false =>
    cases hhandler : Handler.ofTag? tag.text with
    | none => simp [demand, hspecific, hhandler]
    | some handler => cases handler <;> cases content <;> simp [demand, hspecific, hhandler]

/-! ## Including files -/

theorem loadNamed_eq_ok {p : Path} {document : Path × Value} :
    r.loadNamed p = .ok document ↔ ∃ v, r.load p = .ok v ∧ document = (p, v) := by
  rw [loadNamed, bind_eq_ok]
  exact exists_congr fun v => and_congr_right fun _ =>
    ⟨fun h => (Except.ok.inj h).symm, fun h => congrArg Except.ok h.symm⟩

/-- A file is loaded with its path exactly when it is loaded. The path is kept for messages about
documents that cannot be put together. -/
theorem loaded_iff_loadNamed {p : Path} :
    (∃ document, r.loadNamed p = .ok document) ↔ ∃ v, r.load p = .ok v :=
  ⟨fun ⟨_, h⟩ => (loadNamed_eq_ok.mp h).imp fun _ hv => hv.1,
    fun ⟨v, h⟩ => ⟨(p, v), loadNamed_eq_ok.mpr ⟨v, h, rfl⟩⟩⟩

theorem loadNamed_eq_error {p : Path} : r.loadNamed p = .error e ↔ r.load p = .error e := by
  cases h : r.load p <;> simp [loadNamed, h]

/-- Files that are loaded with their paths are loaded, and come in the order of the paths. -/
theorem load_of_mapM_loadNamed {paths : List Path} {documents : List (Path × Value)}
    (h : paths.mapM r.loadNamed = .ok documents) :
    documents.map (·.1) = paths ∧ ∀ document ∈ documents, r.load document.1 = .ok document.2 := by
  have hloaded := mapM_eq_ok.mp h
  clear h
  induction hloaded with
  | nil => exact ⟨rfl, fun _ hmem => absurd hmem List.not_mem_nil⟩
  | @cons p document paths documents hdocument _ ih =>
    obtain ⟨v, hv, rfl⟩ := loadNamed_eq_ok.mp hdocument
    refine ⟨congrArg (p :: ·) ih.1, ?_⟩
    intro other hother
    rcases List.mem_cons.mp hother with rfl | hother
    · exact hv
    · exact ih.2 other hother

/-- Files that are loaded are loaded to the same documents by a resolver that has these documents
under the same names. Their paths may be others, which is why only the documents are compared. -/
theorem exists_mapM_loadNamed {r' : Resolver} {names : List String}
    {documents : List (Path × Value)} (h : (names.map r.pathOf).mapM r.loadNamed = .ok documents)
    (hnames : ∀ name ∈ names, ∀ D, r.load (r.pathOf name) = .ok D →
      r'.load (r'.pathOf name) = .ok D) :
    ∃ others, (names.map r'.pathOf).mapM r'.loadNamed = .ok others ∧
      others.map (·.2) = documents.map (·.2) := by
  induction names generalizing documents with
  | nil =>
    cases h
    exact ⟨[], rfl, rfl⟩
  | cons name names ih =>
    obtain ⟨hname, hrest⟩ := List.forall_mem_cons.mp hnames
    rw [mapM_eq_ok, List.map_cons, List.forall₂_cons_left_iff] at h
    obtain ⟨document, later, hdocument, hlater, rfl⟩ := h
    obtain ⟨D, hD, rfl⟩ := loadNamed_eq_ok.mp hdocument
    obtain ⟨others, hothers, hvalues⟩ := ih (mapM_eq_ok.mpr hlater) hrest
    refine ⟨(r'.pathOf name, D) :: others, ?_, congrArg (D :: ·) hvalues⟩
    rw [mapM_eq_ok, List.map_cons]
    exact .cons (loadNamed_eq_ok.mpr ⟨D, hname D hD, rfl⟩) (mapM_eq_ok.mp hothers)

/-- Once its names are read, a node loads its files and puts the documents together. All names are
read before, so a node that is no name counts before any file. -/
theorem included_of_fileNames {names : List String} (h : content.fileNames = .ok names) :
    r.included content = (names.map r.pathOf).mapM r.loadNamed >>= Include.joined := by
  rw [included, h]
  rfl

/-- A node has the same outcome for resolvers that take its names for the same paths and agree on
the paths that are loaded. Paths behind a file that fails are not. -/
theorem included_congr {r' : Resolver}
    (hpath : ∀ names, content.fileNames = .ok names → ∀ name ∈ names,
      r'.pathOf name = r.pathOf name)
    (hload : ∀ names front q back, content.fileNames = .ok names →
      names.map r.pathOf = front ++ q :: back →
        (∀ p ∈ front, ∃ document, r.load p = .ok document) → r'.load q = r.load q) :
    r'.included content = r.included content := by
  cases hnames : content.fileNames with
  | error e =>
    simp only [included, hnames]
    rfl
  | ok names =>
    have hpaths : names.map r'.pathOf = names.map r.pathOf :=
      List.map_congr_left (hpath names hnames)
    have hloads : (names.map r.pathOf).mapM r'.loadNamed =
        (names.map r.pathOf).mapM r.loadNamed := by
      refine mapM_congr_of_reached ?_
      intro front q back hsplit hfront
      have hq := hload names front q back hnames hsplit fun p hp =>
        loaded_iff_loadNamed.mp (hfront p hp)
      rw [loadNamed, loadNamed, hq]
    simp only [included_of_fileNames hnames, hpaths, hloads]

/-- What a node includes is included by a resolver that loads each file to the same document under
its name, once it has loaded the files before. The hypothesis allows to go through the files in
order. -/
theorem included_of_named {r' : Resolver} {u : Value} (h : r.included content = .ok u)
    (hload : ∀ front name back, content.fileNames = .ok (front ++ name :: back) →
      (∀ p ∈ front.map r'.pathOf, ∃ document, r'.load p = .ok document) →
        ∀ D, r.load (r.pathOf name) = .ok D → r'.load (r'.pathOf name) = .ok D) :
    r'.included content = .ok u := by
  obtain ⟨names, hnames, h⟩ := bind_eq_ok.mp h
  obtain ⟨documents, hdocuments, hjoined⟩ := bind_eq_ok.mp h
  have hloaded : ∀ name ∈ names, ∃ D, r.load (r.pathOf name) = .ok D := by
    intro name hname
    obtain ⟨document, -, h⟩ := exists_ok_of_mapM_eq_ok hdocuments (List.mem_map_of_mem hname)
    exact loaded_iff_loadNamed.mp ⟨document, h⟩
  have hothers : ∀ name ∈ names, ∀ D, r.load (r.pathOf name) = .ok D →
      r'.load (r'.pathOf name) = .ok D := by
    refine forall_mem_of_front ?_
    intro front name back hsplit hfront
    refine hload front name back (hsplit ▸ hnames) ?_
    intro p hp
    obtain ⟨before, hbefore, rfl⟩ := List.mem_map.mp hp
    obtain ⟨D, hD⟩ := hloaded before (hsplit ▸ List.mem_append_left _ hbefore)
    exact ⟨D, hfront before hbefore D hD⟩
  obtain ⟨others, hloads, hvalues⟩ := exists_mapM_loadNamed hdocuments hothers
  rw [included_of_fileNames hnames]
  exact bind_eq_ok.mpr ⟨others, hloads, Include.joined_of_values hjoined hvalues⟩

/-- A node that includes files is at fault itself, or fails as one of the files does, while those
before it are loaded. -/
theorem included_eq_error (htag : Handler.ofTag? tag.text = some .inclusion)
    (h : r.included content = .error e) : r.AtFault tag content e ∨
      ∃ names front q back, content.fileNames = .ok names ∧
        names.map r.pathOf = front ++ q :: back ∧
        (∀ p ∈ front, ∃ document, r.load p = .ok document) ∧ r.load q = .error e := by
  rcases bind_eq_error.mp h with hnames | ⟨names, hnames, h⟩
  · obtain ⟨node, hnode, hname, rfl⟩ := Value.fileNames_eq_error hnames
    exact .inl (.wrongFileName htag hnode hname)
  · rcases bind_eq_error.mp h with hloads | ⟨documents, hdocuments, hjoined⟩
    · obtain ⟨front, q, back, hsplit, hfront, hq⟩ := mapM_eq_error.mp hloads
      exact .inr ⟨names, front, q, back, hnames, hsplit,
        fun p hp => loaded_iff_loadNamed.mp (hfront p hp), loadNamed_eq_error.mp hq⟩
    · exact .inl (.documents htag hnames hdocuments hjoined)

end Resolver

end YamlWeave
