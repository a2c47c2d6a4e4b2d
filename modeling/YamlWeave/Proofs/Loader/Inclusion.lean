import YamlWeave.Proofs.Loader.Kept
import YamlWeave.Proofs.Path

/-!
# What including does to a document

A text whose one entry includes a file holds what the file is on its own. Putting documents together
leaves a single one as it is, because its keys are distinct (`joined_singleton`).

Merge keys are resolved in the whole of the including text, though, and so a second time in what was
included. This changes a document in which the first time has left a merge key behind, and only such
a document (`load_text_including`).
-/

set_option autoImplicit false

namespace YamlWeave

namespace Value

/-- What stands in place of a node that includes one document: a sequence becomes an element. -/
def placed : Value → Value
  | .sequence items => .sequence [.sequence items]
  | v => v

/-- Documents that differ still differ in their places. So the document is unchanged exactly when
merging it again leaves it. -/
theorem placed_injective {u v : Value} (h : u.placed = v.placed) : u = v := by
  cases u <;> cases v <;> simp_all [placed]

theorem merged_singleton (v : Value) :
    merged (.sequence [v]) = (fun u => .sequence [u]) <$> merged v := by
  rw [merged_sequence, mergedItems, mergedItems]
  cases v.merged <;> rfl

/-- A document is merged in its place as it would be alone. This is the whole effect of the second
merging, which works on the including text and knows nothing of files. -/
theorem merged_placed (v : Value) : v.placed.merged = placed <$> v.merged := by
  cases v with
  | sequence items =>
    rw [placed, merged_singleton, merged_sequence]
    cases mergedItems items <;> rfl
  | mapping entries =>
    rw [placed, merged_mapping]
    · cases Entries.flatten entries >>= mergedEntries <;> rfl
    · intro _ h
      cases h
  | tagged tag content =>
    rw [placed, merged_tagged]
    · cases content.merged <;> rfl
    · intro _ h
      cases h
  | _ => simp [placed, merged]

/-- A mapping with one entry is merged in the value, unless the key is the merge key. That key would
make the value be taken in. -/
theorem merged_entry {name : String} (hname : name ≠ "<<") (v : Value) :
    merged (.mapping [(.string name, v)]) =
      (fun u => .mapping [(.string name, u)]) <$> merged v := by
  have hkey : Entries.contains mergeKey [(.string name, v)] = false := by
    simpa [Entries.contains, mergeKey, same] using hname.symm
  rw [merged_mapping, flatten_of_not_contains hkey]
  show mapping <$> mergedEntries [(.string name, v)] = _
  rw [mergedEntries, mergedEntries]
  cases v.merged <;> rfl

end Value

/-- A single document that is no scalar stays as it is. A mapping is copied entry by entry, which is
why its keys have to be distinct. -/
theorem Include.joined_singleton {path : Path} {D : Value} (hdistinct : D.Distinct)
    (hkind : D.kind ≠ .scalar) : joined [(path, D)] = .ok D.placed := by
  cases D with
  | sequence items => rfl
  | mapping entries =>
    show Except.ok (Value.mapping (Entries.ofList entries)) = _
    rw [Entries.ofList_of_distinct hdistinct.entries]
    rfl
  | _ => exact absurd rfl hkind

/-- A mapping with one entry that includes a file is resolved to that entry with the document. The
name of the file is its path, so `hpath` says that no directory is put in front of it. -/
theorem Value.resolved_entry {r : Resolver} {f : Path} (name : String) {D : Value}
    (hpath : r.pathOf f.text = f) (hload : r.load f = .ok D) (hdistinct : D.Distinct)
    (hkind : D.kind ≠ .scalar) :
    Value.resolved r (.mapping [(.string name, .tagged ⟨"include"⟩ (.string f.text))]) =
      .ok (.mapping [(.string name, D.placed)]) := by
  have htag : Handler.ofTag? (Tag.text ⟨"include"⟩) = some .inclusion := by decide
  have hnames : (Value.string f.text).fileNames = .ok [f.text] := rfl
  have hnode : Value.resolved r (.tagged ⟨"include"⟩ (.string f.text)) = .ok D.placed := by
    rw [Value.resolved_of_fileNames htag hnames, hpath, hload]
    exact Include.joined_singleton hdistinct hkind
  have hparts : [.string name, .tagged ⟨"include"⟩ (.string f.text)].mapM (Value.resolved r) =
      .ok [.string name, D.placed] :=
    mapM_eq_ok.mpr (.cons rfl (.cons hnode .nil))
  rw [Value.resolved_of_not_tagged rfl]
  exact map_eq_ok.mpr ⟨_, hparts, rfl⟩

/-- What a document becomes when it has been put in place in a text: its merge keys are resolved
once more, if they are resolved at all. -/
def remerged (mergeKeys : Bool) (D : Value) : Except Failure Value :=
  if mergeKeys then D.merged.mapError (.unmergeable ⟨"<string>"⟩) else .ok D

/-- Merging again changes nothing exactly when merge keys are left alone, or none that merging gets
to is left. -/
theorem remerged_eq_self_iff {mergeKeys : Bool} {D : Value} :
    remerged mergeKeys D = .ok D ↔ mergeKeys = false ∨ D.MergeFree := by
  cases mergeKeys with
  | false => exact iff_of_true rfl (.inl rfl)
  | true =>
    have hmerged : remerged true D = .ok D ↔ D.merged = .ok D := by
      rw [remerged, if_pos rfl, mapError_eq_ok]
    rw [hmerged, Value.merged_eq_self_iff]
    simp

/-- The one entry of a text includes a file, and the file has a document on its own. -/
structure Inclusion (w : World) (options : Options) (f : Path) (name text : String) (D : Value) :
    Prop where
  absolute : f.isAbsolute = true
  name_ne : name ≠ "<<"
  value : Document.value? text =
    some (.mapping [(.string name, .tagged ⟨"include"⟩ (.string f.text))])
  alone : load w ⟨none, options.mergeKeys⟩ (.file f) = .ok D

/-- **What including does to a document.** A text whose one entry includes a file has the document
that the file has on its own in that entry, a mapping as it is and a sequence as the only element of
another one, with what merge keys it still holds resolved once more. It is the document unchanged
exactly when merge keys are not resolved, or none that merging gets to is left in the document. -/
theorem load_text_including {w : World} {options : Options} {f : Path} {name text : String}
    {D : Value} (h : Inclusion w options f name text D) (hkind : D.kind ≠ .scalar) :
    load w options (.text text) =
        (fun u : Value => .mapping [(.string name, u.placed)]) <$> remerged options.mergeKeys D ∧
      (load w options (.text text) = .ok (.mapping [(.string name, D.placed)]) ↔
        options.mergeKeys = false ∨ D.MergeFree) := by
  have hdistinct : D.Distinct := Loader.distinct_of_load h.alone
  have hload : load w options (.text text) =
      (fun u : Value => .mapping [(.string name, u.placed)]) <$> remerged options.mergeKeys D := by
    rw [Loader.load_text, Loader.compose_of_value? h.value,
      Value.resolved_entry name (Path.join_of_isAbsolute h.absolute _) h.alone hdistinct hkind]
    show (if options.mergeKeys = true then _ else _) = _
    rw [remerged]
    split
    · rw [Value.merged_entry h.name_ne, Value.merged_placed]
      cases D.merged <;> rfl
    · rfl
  refine ⟨hload, ?_⟩
  rw [hload, ← remerged_eq_self_iff, map_eq_ok]
  constructor
  · rintro ⟨u, hu, heq⟩
    have hplaced : u.placed = D.placed := by simpa using heq
    rw [hu, Value.placed_injective hplaced]
  · intro hself
    exact ⟨D, hself, rfl⟩

/-- The world with a single file, where nothing else can be read and no variable is set. -/
def World.single (file : Path) (text : String) : World where
  read p := if p = file then .ok text else .error .notFound
  canonical? p := if p = file then some file else none
  valueOf? _ := none
  files := [file]
  canonical_mem_files := by
    intro p content h
    by_cases hp : p = file
    · exact ⟨file, List.mem_singleton_self file, if_pos hp⟩
    · rw [if_neg hp] at h
      cases h

/-- A merge key under a merge key is left behind by the first merging and resolved by the second. -/
theorem load_text_including_chained :
    Inclusion (.single ⟨"/f"⟩ "<<: {<<: {x: 1}}") .standard ⟨"/f"⟩ "k" "k: !include /f"
        (.mapping [(.mergeKey, .mapping [(.string "x", .int 1)])]) ∧
      load (.single ⟨"/f"⟩ "<<: {<<: {x: 1}}") .standard (.text "k: !include /f") =
        .ok (.mapping [(.string "k", .mapping [(.string "x", .int 1)])]) := by
  have h : Inclusion (.single ⟨"/f"⟩ "<<: {<<: {x: 1}}") .standard ⟨"/f"⟩ "k" "k: !include /f"
      (.mapping [(.mergeKey, .mapping [(.string "x", .int 1)])]) :=
    ⟨by decide, by decide, by decide +kernel, by decide +kernel⟩
  refine ⟨h, (load_text_including h (by decide)).1.trans ?_⟩
  decide +kernel

/-- Not every document stays what it is when it is included, and a document may even make the text
fail that includes it. -/
theorem not_unchanged_when_included :
    ¬ (∀ (w : World) (options : Options) (f : Path) (name text : String) (D : Value),
      Inclusion w options f name text D → D.kind = .mapping →
        load w options (.text text) = .ok (.mapping [(.string name, D)])) ∧
    ¬ (∀ (w : World) (options : Options) (f : Path) (name text : String) (D : Value),
      Inclusion w options f name text D → D.kind = .mapping →
        ∃ document, load w options (.text text) = .ok document) := by
  constructor
  · intro h
    have hload := h (.single ⟨"/f"⟩ "<<: {<<: {x: 1}}") .standard ⟨"/f"⟩ "k" "k: !include /f"
      (.mapping [(.mergeKey, .mapping [(.string "x", .int 1)])])
      ⟨by decide, by decide, by decide +kernel, by decide +kernel⟩ rfl
    revert hload
    decide +kernel
  · intro h
    obtain ⟨document, hload⟩ := h (.single ⟨"/f"⟩ "<<: {<<: 5}") .standard ⟨"/f"⟩ "k"
      "k: !include /f" (.mapping [(.mergeKey, .int 5)])
      ⟨by decide, by decide, by decide +kernel, by decide +kernel⟩ rfl
    have hfails : load (.single ⟨"/f"⟩ "<<: {<<: 5}") .standard (.text "k: !include /f") =
        .error (.unmergeable ⟨"<string>"⟩ .scalar) := by
      decide +kernel
    rw [hfails] at hload
    cases hload

end YamlWeave
