import YamlWeave.Proofs.Include
import YamlWeave.Proofs.Loader.Alone
import YamlWeave.Proofs.Loader.Inclusion
import YamlWeave.Proofs.Value.Lookups
import YamlWeave.Proofs.Value.TagFree

/-!
# Nodes that include files under a merge key

A value without tags is resolved to itself (`resolved_of_tagFree`), so a mapping whose keys have no
tags keeps its keys, and its merge key in its place (`resolved_takingIn`).

Files can be included under a merge key by one node that lists them, or by a node for each of them.
Where each file is loaded to a mapping, the one node makes these mappings laid over one another, and
the others make a list of them. Where a file is cut off for a cycle, both ways are
(`resolved_nodes`).
-/

set_option autoImplicit false

namespace YamlWeave

namespace Value

variable {r : Resolver} {v x : Value} {entries front back others : Entries}

/-! ## Values without tags -/

/-- The parts of a mapping, taken two by two, are its entries again. -/
theorem pairs_parts (entries : Entries) : pairs (mapping entries).parts = entries := by
  induction entries with
  | nil => rfl
  | cons entry entries ih =>
    show entry :: pairs (mapping entries).parts = _
    rw [ih]

/-- A value with distinct keys is put together from its parts as it was. With a key twice, one of
the two entries would be lost. -/
theorem withParts_parts (h : v.Distinct) : v.withParts v.parts = v := by
  cases v with
  | mapping entries => rw [withParts, pairs_parts, Entries.ofList_of_distinct h.entries]
  | _ => rfl

/-- A value without tags and without keys that occur twice is resolved to itself. -/
theorem resolved_of_tagFree (h : v.TagFree) (hdistinct : v.Distinct) : resolved r v = .ok v := by
  induction v using parts_induction with
  | step v ih =>
    have htag : v.isTagged = false := by
      cases v with
      | tagged tag content => exact absurd h (not_tagFree_tagged tag content)
      | _ => rfl
    have hparts : v.parts.mapM (resolved r) = .ok v.parts := by
      rw [mapM_eq_ok, List.forall₂_same]
      exact fun part hpart => ih part hpart (h.part hpart) (hdistinct.part hpart)
    rw [resolved_of_not_tagged htag]
    exact map_eq_ok.mpr ⟨_, hparts, withParts_parts hdistinct⟩

/-- An entry with its value resolved. -/
def resolvedValue (r : Resolver) (entry : Value × Value) : Except Failure (Value × Value) := do
  return (entry.1, ← resolved r entry.2)

theorem resolvedValue_eq_ok {entry other : Value × Value} :
    resolvedValue r entry = .ok other ↔ entry.1 = other.1 ∧ resolved r entry.2 = .ok other.2 := by
  obtain ⟨key, value⟩ := other
  cases h : resolved r entry.2 <;> simp [resolvedValue, h]

theorem keys_of_mapM_resolvedValue (h : entries.mapM (resolvedValue r) = .ok others) :
    entries.map (·.1) = others.map (·.1) := by
  have hpairs := (mapM_eq_ok.mp h).imp fun _ _ hpair => (resolvedValue_eq_ok.mp hpair).1
  rwa [← List.forall₂_eq_eq_eq, List.forall₂_map_left_iff, List.forall₂_map_right_iff]

/-- Keys without tags stay, so only the values of entries are resolved. The keys have to be distinct
inside as well, in case a key is a mapping. -/
theorem resolvedEntries_of_tagFree (hkeys : ∀ entry ∈ entries, entry.1.TagFree ∧ entry.1.Distinct) :
    resolvedEntries r entries = entries.mapM (resolvedValue r) := by
  induction entries with
  | nil => rfl
  | cons entry entries ih =>
    obtain ⟨hkey, hrest⟩ := List.forall_mem_cons.mp hkeys
    rw [resolvedEntries, resolved_of_tagFree hkey.1 hkey.2, ih hrest, List.mapM_cons, resolvedValue]
    cases resolved r entry.2 <;> rfl

/-- A mapping whose keys have no tags is resolved to a mapping with these keys. No two of them
become the same, so nothing is put together anew. -/
theorem resolved_mapping_of_tagFree (h : (mapping entries).Distinct)
    (hkeys : ∀ entry ∈ entries, entry.1.TagFree) :
    resolved r (.mapping entries) = mapping <$> entries.mapM (resolvedValue r) := by
  have hentries := resolvedEntries_of_tagFree (r := r) fun entry hentry =>
    ⟨hkeys entry hentry, h.key hentry⟩
  rw [resolved, hentries]
  cases hout : entries.mapM (resolvedValue r) with
  | error e => rfl
  | ok others =>
    have hothers : Entries.Distinct others := by
      rw [Entries.distinct_iff_keys, ← keys_of_mapM_resolvedValue hout,
        ← Entries.distinct_iff_keys]
      exact h.entries
    show Except.ok (mapping (Entries.ofList others)) = _
    rw [Entries.ofList_of_distinct hothers]
    rfl

/-- A mapping with a merge key is resolved around it. The order of steps is that of the entries, so
a failure in `front` counts before one under the merge key. -/
theorem resolved_takingIn {source : Value} (h : (takingIn front back source).Distinct)
    (hkeys : ∀ entry ∈ front ++ back, entry.1.TagFree) :
    resolved r (takingIn front back source) = do
      let front ← front.mapM (resolvedValue r)
      let source ← resolved r source
      let back ← back.mapM (resolvedValue r)
      return takingIn front back source := by
  have hall : ∀ entry ∈ front ++ (mergeKey, source) :: back, entry.1.TagFree := by
    obtain ⟨hfront, hback⟩ := List.forall_mem_append.mp hkeys
    exact List.forall_mem_append.mpr
      ⟨hfront, List.forall_mem_cons.mpr ⟨kept_tagFree.scalar rfl, hback⟩⟩
  rw [takingIn, resolved_mapping_of_tagFree h hall, List.mapM_append, List.mapM_cons]
  cases front.mapM (resolvedValue r) with
  | error e => rfl
  | ok front =>
    simp only [resolvedValue]
    cases resolved r source with
    | error e => rfl
    | ok source => cases back.mapM (resolvedValue r) <;> rfl

end Value

/-! ## Nodes that include files -/

/-- A node that names a file, and the entries of the mapping that the file holds. -/
structure FileNode where
  node : Value
  name : String
  entries : Entries

/-- A row of steps of which some fail, and only for cycles, fails for a cycle. Which of the files is
named may depend on the order of the row. -/
theorem exists_circular_of_mapM {α β : Type} {f : α → Except Failure β} {l : List α}
    (hsome : ∃ a ∈ l, ∀ b, f a ≠ .ok b)
    (hcircular : ∀ a ∈ l, ∀ e, f a = .error e → ∃ path, e = .circularInclude path) :
    ∃ path, l.mapM f = .error (.circularInclude path) := by
  cases hout : l.mapM f with
  | ok bs =>
    obtain ⟨a, ha, hfails⟩ := hsome
    obtain ⟨b, -, hb⟩ := exists_ok_of_mapM_eq_ok hout ha
    exact absurd hb (hfails b)
  | error e =>
    obtain ⟨front, a, back, rfl, -, ha⟩ := mapM_eq_error.mp hout
    obtain ⟨path, rfl⟩ := hcircular a (List.mem_append_right front List.mem_cons_self) e ha
    exact ⟨path, rfl⟩

namespace Resolver

variable {r : Resolver} {tag : Tag} {file : FileNode} {files : List FileNode} {e : Failure}

/-- The node gives the name of a file that is loaded to a mapping with these entries, unless loading
it is cut off for a cycle. -/
structure LoadsMapping (r : Resolver) (file : FileNode) : Prop where
  name : file.node.scalarText? = some file.name
  distinct : (Value.mapping file.entries).Distinct
  loads : Circular (r.load (r.pathOf file.name)) ∨
    r.load (r.pathOf file.name) = .ok (.mapping file.entries)

namespace LoadsMapping

theorem circular (h : r.LoadsMapping file) (hload : r.load (r.pathOf file.name) = .error e) :
    ∃ path, e = .circularInclude path := by
  rcases h.loads with ⟨path, hcircular⟩ | hok
  · exact ⟨path, Except.error.inj (hload.symm.trans hcircular)⟩
  · cases hload.symm.trans hok

theorem eq_mapping (h : r.LoadsMapping file) {D : Value}
    (hload : r.load (r.pathOf file.name) = .ok D) : D = .mapping file.entries := by
  rcases h.loads with ⟨path, hcircular⟩ | hok
  · cases hload.symm.trans hcircular
  · exact Except.ok.inj (hload.symm.trans hok)

/-- A node for one file is resolved as the file is loaded. The mapping is copied entry by entry on
the way, which distinct keys survive. -/
theorem resolved (h : r.LoadsMapping file) (htag : Handler.ofTag? tag.text = some .inclusion) :
    Value.resolved r (.tagged tag file.node) = r.load (r.pathOf file.name) := by
  rw [Value.resolved_of_fileNames htag (Value.fileNames_of_scalarText? h.name)]
  cases hload : r.load (r.pathOf file.name) with
  | error e => rfl
  | ok D =>
    rw [h.eq_mapping hload]
    exact Include.joined_singleton h.distinct nofun

end LoadsMapping

/-- A node that lists files puts together what they are loaded to. All nodes of the list give names,
so the phase of names is passed. -/
theorem resolved_list (htag : Handler.ofTag? tag.text = some .inclusion)
    (hfiles : ∀ file ∈ files, r.LoadsMapping file) :
    Value.resolved r (.tagged tag (.sequence (files.map (·.node)))) =
      (files.mapM fun file => r.loadNamed (r.pathOf file.name)) >>= Include.joined := by
  have hnames : (Value.sequence (files.map (·.node))).fileNames = .ok (files.map (·.name)) := by
    show (files.map (·.node)).mapM Value.fileName = _
    rw [mapM_eq_ok, List.forall₂_map_left_iff, List.forall₂_map_right_iff, List.forall₂_same]
    exact fun file hfile => Value.fileName_eq_ok.mpr (hfiles file hfile).name
  have hdemand : r.demand tag (.sequence (files.map (·.node))) = .files :=
    demand_eq_files_iff.mpr ⟨Value.not_isNonSpecific_of_ofTag? htag, htag⟩
  rw [Value.resolved_tagged, hdemand]
  show r.included _ = _
  rw [included_of_fileNames hnames, List.mapM_map, List.mapM_map]
  rfl

/-- Nodes for one file each are resolved as these files are loaded, and are not put together. -/
theorem resolved_each (htag : Handler.ofTag? tag.text = some .inclusion)
    (hfiles : ∀ file ∈ files, r.LoadsMapping file) :
    Value.resolved r (.sequence ((files.map (·.node)).map (.tagged tag))) =
      .sequence <$> files.mapM fun file => r.load (r.pathOf file.name) := by
  rw [Value.resolved_of_not_tagged rfl]
  show _ <$> ((files.map (·.node)).map (Value.tagged tag)).mapM (Value.resolved r) = _
  rw [List.mapM_map, List.mapM_map]
  have hnodes : files.mapM (fun file => Value.resolved r (.tagged tag file.node)) =
      files.mapM fun file => r.load (r.pathOf file.name) := by
    refine mapM_congr_of_reached fun front file back hsplit _ => ?_
    have hmem : file ∈ files := hsplit ▸ List.mem_append_right front List.mem_cons_self
    exact (hfiles file hmem).resolved htag
  exact congrArg _ hnodes

/-- Where all files are loaded, a node that lists them lays over one another what they hold. There
has to be a file, since an empty list is refused. -/
theorem resolved_list_of_loads (htag : Handler.ofTag? tag.text = some .inclusion)
    (hne : files ≠ []) (hfiles : ∀ file ∈ files, r.LoadsMapping file)
    (hall : ∀ file ∈ files, r.load (r.pathOf file.name) = .ok (.mapping file.entries)) :
    Value.resolved r (.tagged tag (.sequence (files.map (·.node)))) =
      .ok (.overlaid (files.map (·.entries))) := by
  have hloads : (files.mapM fun file => r.loadNamed (r.pathOf file.name)) =
      .ok (files.map fun file => (r.pathOf file.name, .mapping file.entries)) := by
    rw [mapM_eq_ok, List.forall₂_map_right_iff, List.forall₂_same]
    exact fun file hfile => loadNamed_eq_ok.mpr ⟨_, hall file hfile, rfl⟩
  have hmappings : Include.Mappings
      (files.map fun file => (r.pathOf file.name, .mapping file.entries)) := by
    intro document hdocument
    obtain ⟨file, hfile, rfl⟩ := List.mem_map.mp hdocument
    exact ⟨rfl, Entries.keyed_of_distinct (hfiles file hfile).distinct⟩
  rw [resolved_list htag hfiles, hloads]
  show Include.joined _ = _
  rw [Include.joined_of_mappings (mt List.map_eq_nil_iff.mp hne) hmappings, Include.allEntries,
    List.map_map]
  rfl

/-- Where all files are loaded, nodes for one file each list what these files hold. -/
theorem resolved_each_of_loads (htag : Handler.ofTag? tag.text = some .inclusion)
    (hfiles : ∀ file ∈ files, r.LoadsMapping file)
    (hall : ∀ file ∈ files, r.load (r.pathOf file.name) = .ok (.mapping file.entries)) :
    Value.resolved r (.sequence ((files.map (·.node)).map (.tagged tag))) =
      .ok (.sequence ((files.map (·.entries)).map .mapping)) := by
  rw [resolved_each htag hfiles, List.map_map]
  refine map_eq_ok.mpr ⟨_, mapM_eq_ok.mpr ?_, rfl⟩
  rw [List.forall₂_map_right_iff, List.forall₂_same]
  exact hall

/-- Where some file is not loaded, a node that lists it is cut off for a cycle. Files in front of it
may be loaded, but nothing is made of them. -/
theorem circular_list (htag : Handler.ofTag? tag.text = some .inclusion)
    (hfiles : ∀ file ∈ files, r.LoadsMapping file)
    (hsome : ∃ file ∈ files, ∀ D, r.load (r.pathOf file.name) ≠ .ok D) :
    Circular (Value.resolved r (.tagged tag (.sequence (files.map (·.node))))) := by
  have hsomeNamed :
      ∃ file ∈ files, ∀ document, r.loadNamed (r.pathOf file.name) ≠ .ok document := by
    obtain ⟨file, hfile, hfails⟩ := hsome
    refine ⟨file, hfile, fun document hdocument => ?_⟩
    obtain ⟨D, hD⟩ := loaded_iff_loadNamed.mp ⟨document, hdocument⟩
    exact hfails D hD
  obtain ⟨path, hpath⟩ := exists_circular_of_mapM hsomeNamed
    fun file hfile _ he => (hfiles file hfile).circular (loadNamed_eq_error.mp he)
  rw [resolved_list htag hfiles]
  exact ⟨path, bind_eq_error.mpr (.inl hpath)⟩

/-- Where some file is not loaded, a list with a node for it is cut off for a cycle, although the
nodes are resolved one by one. -/
theorem circular_each (htag : Handler.ofTag? tag.text = some .inclusion)
    (hfiles : ∀ file ∈ files, r.LoadsMapping file)
    (hsome : ∃ file ∈ files, ∀ D, r.load (r.pathOf file.name) ≠ .ok D) :
    Circular (Value.resolved r (.sequence ((files.map (·.node)).map (.tagged tag)))) := by
  obtain ⟨path, hpath⟩ := exists_circular_of_mapM hsome
    fun file hfile _ => (hfiles file hfile).circular
  rw [resolved_each htag hfiles]
  exact ⟨path, map_eq_error.mpr hpath⟩

/-- **Two ways to include files.** One node that lists files, and a list of nodes for these files
from the last to the first, are both cut off for a cycle, or the one gives what the files hold laid
over one another, and the other a list of it. -/
theorem resolved_nodes (htag : Handler.ofTag? tag.text = some .inclusion) (hne : files ≠ [])
    (hfiles : ∀ file ∈ files, r.LoadsMapping file) :
    (Circular (Value.resolved r (.tagged tag (.sequence (files.map (·.node))))) ∧
      Circular (Value.resolved r (.sequence ((files.map (·.node)).reverse.map (.tagged tag))))) ∨
    (Value.resolved r (.tagged tag (.sequence (files.map (·.node)))) =
        .ok (.overlaid (files.map (·.entries))) ∧
      Value.resolved r (.sequence ((files.map (·.node)).reverse.map (.tagged tag))) =
        .ok (.backwards (files.map (·.entries)))) := by
  have hreverse : ∀ file ∈ files.reverse, r.LoadsMapping file :=
    fun file hfile => hfiles file (List.mem_reverse.mp hfile)
  rw [Value.backwards, ← List.map_reverse, ← List.map_reverse]
  by_cases hall : ∀ file ∈ files, r.load (r.pathOf file.name) = .ok (.mapping file.entries)
  · exact .inr ⟨resolved_list_of_loads htag hne hfiles hall, resolved_each_of_loads htag hreverse
      fun file hfile => hall file (List.mem_reverse.mp hfile)⟩
  · obtain ⟨file, hfile, hload⟩ : ∃ file ∈ files,
        r.load (r.pathOf file.name) ≠ .ok (.mapping file.entries) := by simpa using hall
    have hfails : ∀ D, r.load (r.pathOf file.name) ≠ .ok D := by
      intro D hD
      rw [hD, (hfiles file hfile).eq_mapping hD] at hload
      exact hload rfl
    exact .inl ⟨circular_list htag hfiles ⟨file, hfile, hfails⟩,
      circular_each htag hreverse ⟨file, List.mem_reverse.mpr hfile, hfails⟩⟩

end Resolver

end YamlWeave
