import YamlWeave.Resolve
import YamlWeave.Proofs.Value.Overlay

/-!
# What documents make together

What documents make together, and why they may make nothing, is told by their kinds
(`joined_eq_iff`).

Documents of one kind that are put together lose nothing but what a later one overwrites. Mappings
make the mapping whose keys are those of all documents, each with the value that the last document
gives it and in the place where a document first has it; sequences make a sequence of themselves
(`joined_overlays`).

Putting mappings together comes down to putting in the entries of all of them, one after the other
(`joined_of_mappings`). That is why parts may be put together first.
-/

set_option autoImplicit false

namespace YamlWeave.Include

open Entries

variable {documents front back : List (Path × Value)}

/-- All documents are mappings, of which each has distinct keys. -/
def Mappings (documents : List (Path × Value)) : Prop :=
  ∀ document ∈ documents, document.2.kind = .mapping ∧ document.2.entries.Keyed

/-- The entries of all documents, one document after the other. -/
def allEntries (documents : List (Path × Value)) : Entries :=
  (documents.map (·.2.entries)).flatten

/-- The entries of a list that is cut in two are those of the front and then those of the back. -/
theorem allEntries_append (front back : List (Path × Value)) :
    allEntries (front ++ back) = allEntries front ++ allEntries back := by
  rw [allEntries, List.map_append, List.flatten_append]
  rfl

/-- The entries of each document can be looked up by sameness, since the keys of a document are
distinct. -/
theorem Mappings.keyed (h : Mappings documents) :
    ∀ entries ∈ documents.map (·.2.entries), Keyed entries :=
  List.forall_mem_map.mpr fun document hdocument => (h document hdocument).2

/-- All keys that come together are fit to be compared, though keys of different documents may be
the same. -/
theorem proper_allEntries (h : Mappings documents) : (allEntries documents).Proper :=
  proper_flatten h.keyed

theorem contains_allEntries {x : Value} : (allEntries documents).contains x = true ↔
    ∃ document ∈ documents, document.2.entries.contains x = true := by
  simp [Entries.contains, allEntries, List.any_flatten]

/-- Mappings laid over one another are the entries of all of them, put in one after the other. So
nothing depends on where one document ends and the next begins (`joined_of_parts`). -/
theorem foldl_insertAll (documents : List (Path × Value)) (entries : Entries) :
    documents.foldl (fun (merged : Entries) document => merged.insertAll document.2.entries)
      entries = entries.insertAll (allEntries documents) := by
  induction documents generalizing entries with
  | nil => rfl
  | cons document documents ih =>
    rw [List.foldl_cons, ih, ← insertAll_append]
    rfl

/-- Among documents of one kind none is of another kind than the first one. It rules the refusal out
in the laws for each kind. -/
theorem find?_kind_ne {kind : Kind} (h : ∀ document ∈ documents, document.2.kind = kind) :
    documents.find? (·.2.kind != kind) = none := by
  refine List.find?_eq_none.mpr fun document hdocument => ?_
  simp [h document hdocument]

/-- Documents that are all mappings make the mapping of all their entries. Keys need not be distinct
for this. -/
theorem joined_of_kind_mapping (hne : documents ≠ [])
    (h : ∀ document ∈ documents, document.2.kind = .mapping) :
    joined documents = .ok (.mapping (ofList (allEntries documents))) := by
  have hnone := find?_kind_ne h
  obtain ⟨⟨path, first⟩, rest, rfl⟩ := List.exists_cons_of_ne_nil hne
  have hfirst : first.kind = .mapping := h (path, first) List.mem_cons_self
  simp only [joined, hfirst, hnone, foldl_insertAll, ofList]

/-- Documents that are mappings with distinct keys, as loads give them, make the mapping of all
their entries. -/
theorem joined_of_mappings (hne : documents ≠ []) (h : Mappings documents) :
    joined documents = .ok (.mapping (ofList (allEntries documents))) :=
  joined_of_kind_mapping hne fun document hdocument => (h document hdocument).1

/-- Documents that are all sequences make the sequence of these documents, one element for each.
Their elements are not run together. -/
theorem joined_of_sequences (hne : documents ≠ [])
    (h : ∀ document ∈ documents, document.2.kind = .sequence) :
    joined documents = .ok (.sequence (documents.map (·.2))) := by
  have hnone := find?_kind_ne h
  obtain ⟨⟨path, first⟩, rest, rfl⟩ := List.exists_cons_of_ne_nil hne
  have hfirst : first.kind = .sequence := h (path, first) List.mem_cons_self
  simp only [joined, hfirst, hnone]

/-- A scalar cannot be joined, not even alone: the first document is refused by its path. -/
theorem joined_of_scalars {path : Path} {first : Value}
    (h : ∀ document ∈ (path, first) :: back, document.2.kind = .scalar) :
    joined ((path, first) :: back) = .error (.scalarInclude path) := by
  have hfirst : first.kind = .scalar := h (path, first) List.mem_cons_self
  simp only [joined, hfirst, find?_kind_ne h]

/-- The first document of another kind than the first one of all is refused. It alone is named,
whatever comes behind it and even if the first one is a scalar. -/
theorem joined_of_mixed {path : Path} {first : Value} {other : Path × Value}
    (hfront : ∀ document ∈ front, document.2.kind = first.kind)
    (hother : other.2.kind ≠ first.kind) :
    joined ((path, first) :: (front ++ other :: back)) =
      .error (.mixedInclude first.kind other.2.kind other.1) := by
  have hfind : ((path, first) :: (front ++ other :: back)).find? (·.2.kind != first.kind) =
      some other := by
    refine List.find?_eq_some_iff_append.mpr ⟨by simpa using hother, (path, first) :: front, back,
      rfl, List.forall_mem_cons.mpr ⟨by simp, fun document hdocument => ?_⟩⟩
    simp [hfront document hdocument]
  simp only [joined, hfind]

/-! ## All outcomes -/

/-- What documents make together, as their kinds have it. -/
inductive JoinsTo : List (Path × Value) → Except Failure Value → Prop
  | empty : JoinsTo [] (.error .emptyInclude)
  /-- The first document of another kind than the first one of all is refused. -/
  | mixed {path : Path} {first : Value} {front back : List (Path × Value)} {other : Path × Value}
      (hfront : ∀ document ∈ front, document.2.kind = first.kind)
      (hother : other.2.kind ≠ first.kind) :
      JoinsTo ((path, first) :: (front ++ other :: back))
        (.error (.mixedInclude first.kind other.2.kind other.1))
  | scalars {path : Path} {first : Value} {rest : List (Path × Value)}
      (h : ∀ document ∈ (path, first) :: rest, document.2.kind = .scalar) :
      JoinsTo ((path, first) :: rest) (.error (.scalarInclude path))
  | sequences {documents : List (Path × Value)} (hne : documents ≠ [])
      (h : ∀ document ∈ documents, document.2.kind = .sequence) :
      JoinsTo documents (.ok (.sequence (documents.map (·.2))))
  | mappings {documents : List (Path × Value)} (hne : documents ≠ [])
      (h : ∀ document ∈ documents, document.2.kind = .mapping) :
      JoinsTo documents (.ok (.mapping (ofList (allEntries documents))))

theorem JoinsTo.eq {outcome : Except Failure Value} (h : JoinsTo documents outcome) :
    joined documents = outcome := by
  cases h with
  | empty => rfl
  | mixed hfront hother => exact joined_of_mixed hfront hother
  | scalars h => exact joined_of_scalars h
  | sequences hne h => exact joined_of_sequences hne h
  | mappings hne h => exact joined_of_kind_mapping hne h

/-- Either some document is of another kind than the first one, and then the first such document
decides, or the kind of all documents does. So the cases of `JoinsTo` leave no list of documents
out. -/
theorem joinsTo_joined (documents : List (Path × Value)) :
    JoinsTo documents (joined documents) := by
  cases documents with
  | nil => exact .empty
  | cons document rest =>
    obtain ⟨path, first⟩ := document
    cases hfind : rest.find? (·.2.kind != first.kind) with
    | some other =>
      obtain ⟨hother, front, back, rfl, hfront⟩ := List.find?_eq_some_iff_append.mp hfind
      have hother : other.2.kind ≠ first.kind := by simpa using hother
      have hfront : ∀ document ∈ front, document.2.kind = first.kind := by simpa using hfront
      rw [joined_of_mixed hfront hother]
      exact .mixed hfront hother
    | none =>
      have hrest : ∀ document ∈ (path, first) :: rest, document.2.kind = first.kind :=
        List.forall_mem_cons.mpr ⟨rfl, by simpa using hfind⟩
      have hne := List.cons_ne_nil (path, first) rest
      cases hkind : first.kind with
      | scalar =>
        rw [hkind] at hrest
        rw [joined_of_scalars hrest]
        exact .scalars hrest
      | sequence =>
        rw [hkind] at hrest
        rw [joined_of_sequences hne hrest]
        exact .sequences hne hrest
      | mapping =>
        rw [hkind] at hrest
        rw [joined_of_kind_mapping hne hrest]
        exact .mappings hne hrest

/-- The outcome for documents is the one that their kinds fix. Later proofs go by the cases of
`JoinsTo` and never open the function. -/
theorem joined_eq_iff {outcome : Except Failure Value} :
    joined documents = outcome ↔ JoinsTo documents outcome :=
  ⟨fun h => h ▸ joinsTo_joined documents, JoinsTo.eq⟩

/-- Documents that make a value are all of its kind, which is not that of scalars. -/
theorem JoinsTo.kind {u : Value} (h : JoinsTo documents (.ok u)) :
    u.kind ≠ .scalar ∧ ∀ document ∈ documents, document.2.kind = u.kind := by
  cases h with
  | sequences _ h => exact ⟨nofun, h⟩
  | mappings _ h => exact ⟨nofun, h⟩

/-! ## Overlays -/

/-- Of several documents with a key, the last one gives the value. Documents before it may have the
key as well, those behind it may not. -/
theorem get?_allEntries {x v : Value} {document : Path × Value} (hx : x.Distinct)
    (h : Mappings (front ++ document :: back)) (hvalue : document.2.entries.get? x = some v)
    (hback : ∀ later ∈ back, later.2.entries.contains x = false) :
    (ofList (allEntries (front ++ document :: back))).get? x = some v := by
  have hkeyed := h.keyed
  rw [List.map_append, List.map_cons] at hkeyed
  rw [allEntries, List.map_append, List.map_cons]
  exact get?_ofList_flatten hkeyed hx hvalue (List.forall_mem_map.mpr hback)

/-- Parts of a list of mappings that are put together first make the same as the whole list. Each
part needs a document, because nothing can be made of none. -/
theorem joined_of_parts (hfront : front ≠ []) (hback : back ≠ []) (h : Mappings (front ++ back)) :
    ∃ merged merged', joined front = .ok merged ∧ joined back = .ok merged' ∧
      ∀ p q, joined [(p, merged), (q, merged')] = joined (front ++ back) := by
  obtain ⟨hfronts, hbacks⟩ : Mappings front ∧ Mappings back := List.forall_mem_append.mp h
  have hfrontKeyed := keyed_ofList (proper_allEntries hfronts)
  have hbackKeyed := keyed_ofList (proper_allEntries hbacks)
  refine ⟨_, _, joined_of_mappings hfront hfronts, joined_of_mappings hback hbacks, fun p q => ?_⟩
  have hparts : Mappings [(p, .mapping (ofList (allEntries front))),
      (q, .mapping (ofList (allEntries back)))] := by
    simp [Mappings, Value.kind, Value.entries, hfrontKeyed, hbackKeyed]
  have htogether : allEntries [(p, .mapping (ofList (allEntries front))),
      (q, .mapping (ofList (allEntries back)))] =
        ofList (allEntries front) ++ ofList (allEntries back) := by
    simp [allEntries, Value.entries]
  rw [joined_of_mappings (List.cons_ne_nil _ _) hparts,
    joined_of_mappings (List.append_ne_nil_of_left_ne_nil hfront back) h, htogether,
    allEntries_append, ofList, insertAll_append, ← ofList,
    ofList_of_distinct hfrontKeyed.distinct,
    insertAll_ofList hfrontKeyed.proper (proper_allEntries hbacks), ofList, ofList,
    insertAll_append]

/-- **Mappings are laid over one another, sequences beside one another.** Documents that are all
mappings make a mapping. It has the keys that some document has, each once, with the value that the
last document with the key gives it, and in the order in which the documents first have them.
Documents that are all sequences make the sequence of these documents. In both cases a list can be
cut in two and its parts be put together first. -/
theorem joined_overlays :
    (∀ documents, documents ≠ [] → Mappings documents →
      ∃ merged : Entries, joined documents = .ok (.mapping merged) ∧
        (∀ x : Value, x.Distinct → (merged.contains x = true ↔
          ∃ document ∈ documents, document.2.entries.contains x = true)) ∧
        (∀ (x v : Value) front document back, x.Distinct →
          documents = front ++ document :: back → document.2.entries.get? x = some v →
            (∀ later ∈ back, later.2.entries.contains x = false) → merged.get? x = some v) ∧
        merged.Pairwise (fun a b => a.1.same b.1 = false ∧ b.1.same a.1 = false) ∧
        merged.map (·.1) = ((allEntries documents).map (·.1)).eraseDupsBy Value.same) ∧
    (∀ documents, documents ≠ [] → (∀ document ∈ documents, document.2.kind = .sequence) →
      joined documents = .ok (.sequence (documents.map (·.2)))) ∧
    (∀ front back, front ≠ [] → back ≠ [] → Mappings (front ++ back) →
      ∃ merged merged', joined front = .ok merged ∧ joined back = .ok merged' ∧
        ∀ p q, joined [(p, merged), (q, merged')] = joined (front ++ back)) ∧
    ∀ front back : List (Path × Value), front ≠ [] → back ≠ [] →
      (∀ document ∈ front ++ back, document.2.kind = .sequence) →
        ∃ items items', joined front = .ok (.sequence items) ∧
          joined back = .ok (.sequence items') ∧
            joined (front ++ back) = .ok (.sequence (items ++ items')) := by
  refine ⟨fun documents hne h => ?_, fun _ => joined_of_sequences, fun _ _ => joined_of_parts,
    fun front back hfront hback h => ?_⟩
  · have hproper := proper_allEntries h
    have hkeyed := keyed_ofList hproper
    refine ⟨_, joined_of_mappings hne h, fun x hx => ?_, ?_, hkeyed.both, keys_ofList _⟩
    · rw [contains_ofList hproper hx, contains_allEntries]
    · rintro x v front document back hx rfl hvalue hback
      exact get?_allEntries hx h hvalue hback
  · obtain ⟨hfronts, hbacks⟩ := List.forall_mem_append.mp h
    refine ⟨_, _, joined_of_sequences hfront hfronts, joined_of_sequences hback hbacks, ?_⟩
    rw [joined_of_sequences (List.append_ne_nil_of_left_ne_nil hfront back) h, List.map_append]

/-- A key that both documents have keeps its first place and gets its last value. -/
example : joined [(⟨"a"⟩, .mapping [(.string "x", .int 1), (.string "y", .int 2)]),
      (⟨"b"⟩, .mapping [(.string "z", .int 4), (.string "x", .int 3)])] =
    .ok (.mapping [(.string "x", .int 3), (.string "y", .int 2), (.string "z", .int 4)]) := by
  decide

end YamlWeave.Include
