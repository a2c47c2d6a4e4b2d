import YamlWeave.Proofs.Loader.Documents
import YamlWeave.Proofs.Value.Merging

/-!
# What loading keeps

A property that putting values together keeps (`Value.Kept`) holds of every value that comes out of
resolving tags, because what a document holds is taken apart to its scalars, and all that handlers
add is text (`Kept.resolved`). Merging keeps it, so it holds of every document that is loaded, the
included ones among them (`Kept.load`), whatever the texts hold.

That keys are distinct is such a property (`distinct_of_load`).
-/

set_option autoImplicit false

namespace YamlWeave

namespace Value

/-- An entry that is made of two neighbouring parts has these parts as its key and its value. A last
part without a neighbour makes no entry. -/
theorem mem_pairs {parts : List Value} {entry : Value × Value} (h : entry ∈ pairs parts) :
    entry.1 ∈ parts ∧ entry.2 ∈ parts := by
  induction parts using pairs.induct with
  | case1 key value rest ih =>
    rcases List.mem_cons.mp h with rfl | h
    · exact ⟨List.mem_cons_self, List.mem_cons_of_mem key List.mem_cons_self⟩
    · have hlater : ∀ {x : Value}, x ∈ rest → x ∈ key :: value :: rest :=
        fun hx => List.mem_cons_of_mem key (List.mem_cons_of_mem value hx)
      exact ⟨hlater (ih h).1, hlater (ih h).2⟩
  | case2 parts hshort =>
    rw [pairs] at h
    · cases h
    · exact hshort

namespace Kept

variable {P : Value → Prop}

/-- A value without a tag that gets new parts has the property as soon as these have. Nothing is
asked of the old parts. -/
theorem withParts (hP : Kept P) {v : Value} (h : v.isTagged = false) {parts : List Value}
    (hparts : ∀ part ∈ parts, P part) : P (v.withParts parts) := by
  cases v with
  | sequence items => exact hP.sequence hparts
  | mapping entries =>
    refine hP.insertAll hP.empty ?_
    intro entry hentry
    obtain ⟨hkey, hvalue⟩ := mem_pairs hentry
    exact ⟨hparts _ hkey, hparts _ hvalue⟩
  | tagged tag content => cases h
  | _ => exact hP.scalar rfl

/-- The mapping for a function adds a key that is text, so it has the property of its operand. -/
theorem function (hP : Kept P) (name : String) {operand : Value} (h : P operand) :
    P (function name operand) :=
  hP.insert hP.empty (hP.scalar rfl) h

/-- Documents that are put together have the property when each of them has. For mappings this is
where entries with one key are made one. -/
theorem joined (hP : Kept P) {documents : List (Path × Value)} {u : Value}
    (h : ∀ document ∈ documents, P document.2) (hjoined : Include.joined documents = .ok u) :
    P u := by
  cases Include.joined_eq_iff.mp hjoined with
  | sequences => exact hP.sequence (List.forall_mem_map.mpr h)
  | mappings =>
    refine hP.insertAll hP.empty fun entry hentry => ?_
    obtain ⟨entries, hentries, hentry⟩ := List.mem_flatten.mp hentry
    obtain ⟨⟨path, v⟩, hdocument, rfl⟩ := List.mem_map.mp hentries
    have hv := h _ hdocument
    cases v with
    | mapping entries => exact ⟨hP.key hv hentry, hP.value hv hentry⟩
    | _ => exact absurd hentry List.not_mem_nil

variable {r : Resolver} {tag : Tag} {content : Value}

/-- What a node makes of its content has the property as soon as the content has. -/
theorem place (hP : Kept P) {place : Value → Value} (h : r.demand tag content = .content place)
    {y : Value} (hy : P y) : P (place y) := by
  unfold Resolver.demand at h
  split at h
  · split at h <;> cases h <;> exact hy
  · split at h
    · cases h
    · cases h
    · split at h <;> cases h <;> exact hP.function _ hy
    · cases h

/-- An outcome that stands at once is text, null, or a function of text, so it has the property
whatever the node holds. -/
theorem outcome (hP : Kept P) {u : Value} (h : r.demand tag content = .nothing (.ok u)) : P u := by
  unfold Resolver.demand at h
  split at h
  · split at h <;> cases h
    exact hP.scalar rfl
  · split at h
    · cases h
    · have henv := Demand.nothing.inj h
      unfold Resolver.environment at henv
      split at henv
      · cases henv
        exact hP.scalar rfl
      · split at henv <;> cases henv
        next name _ =>
        cases r.valueOf? name with
        | none => exact hP.scalar rfl
        | some text => exact hP.scalar rfl
    · split at h <;> cases h
      exact hP.function _ (hP.scalar rfl)
    · cases h

/-- Resolved values have the property when loaded documents have. The value itself need not have it,
because nothing of it survives but scalars and how they are arranged. -/
theorem resolved (hP : Kept P) (hload : ∀ q document, r.load q = .ok document → P document)
    {v u : Value} (h : resolved r v = .ok u) : P u := by
  induction v using parts_induction generalizing u with
  | step v ih =>
    cases htag : v.isTagged with
    | false =>
      rw [resolved_of_not_tagged htag] at h
      obtain ⟨parts, hparts, rfl⟩ := map_eq_ok.mp h
      refine hP.withParts htag ?_
      intro part hpart
      obtain ⟨old, hold, hpart⟩ := exists_mem_of_mapM_eq_ok hparts hpart
      exact ih old hold hpart
    | true =>
      cases v with
      | tagged tag content =>
        rw [resolved_tagged] at h
        cases hdemand : r.demand tag content with
        | content place =>
          rw [hdemand] at h
          obtain ⟨y, hy, rfl⟩ := map_eq_ok.mp h
          exact hP.place hdemand (ih content List.mem_cons_self hy)
        | files =>
          rw [hdemand] at h
          obtain ⟨names, -, h⟩ := bind_eq_ok.mp h
          obtain ⟨documents, hdocuments, hjoined⟩ := bind_eq_ok.mp h
          refine hP.joined ?_ hjoined
          intro document hdocument
          have hloaded := (Resolver.load_of_mapM_loadNamed hdocuments).2 document hdocument
          exact hload document.1 document.2 hloaded
        | nothing outcome =>
          rw [hdemand] at h
          have houtcome : outcome = .ok u := h
          exact hP.outcome (houtcome ▸ hdemand)
      | _ => cases htag

variable {w : World} {l : Loader} {D : Value}

/-- The document of a text has the property when included documents have. Merging only moves entries
around, so it keeps the property. -/
theorem compose (hP : Kept P) {load : Path → Except Failure Value}
    (hload : ∀ q document, load q = .ok document → P document) {text : String} {path : Path}
    (h : l.compose w load text path = .ok D) : P D := by
  obtain ⟨v, u, -, hu, hD⟩ := Loader.compose_eq_ok.mp h
  have hresolved := hP.resolved hload hu
  split at hD
  · exact hP.merged hresolved hD
  · exact hD ▸ hresolved

/-- The document of every file has the property: the hypothesis on included files is met by
induction over the loads inside. -/
theorem loadFile (hP : Kept P) {p : Path} (h : (l.loadFile w p).1 = .ok D) : P D := by
  induction l, p using Loader.load_induction (w := w) generalizing D with
  | step l p ih =>
    rcases Loader.loadFile_cases w l p with
      ⟨-, hout⟩ | ⟨fault, -, -, hout⟩ | ⟨text, hopen, hread, hout⟩
    · rw [hout] at h
      cases h
    · rw [hout] at h
      cases h
    · rw [hout] at h
      exact hP.compose (fun q document hq => ih text hopen hread q hq) h

/-- Loaded documents have the property, those of texts and of files alike. -/
theorem load (hP : Kept P) {source : Source} (h : (l.load w source).1 = .ok D) : P D := by
  cases source with
  | file p => exact hP.loadFile h
  | text content => exact hP.compose (fun q document hq => hP.loadFile hq) h

end Kept

end Value

/-- No mapping in a loaded document has a key twice. This is the instance of `load` that the laws of
merging and joining ask for. -/
theorem Loader.distinct_of_load {w : World} {l : Loader} {source : Source} {D : Value}
    (h : (l.load w source).1 = .ok D) : D.Distinct :=
  Value.kept_distinct.load h

/-- **Every mapping in a result has distinct keys.** In a loaded document no mapping, at any depth
and inside keys too, has two keys that are the same. Neither has any document that is put together
with others, nor any value of which the tags are resolved and the merge keys are not. Nothing is
asked of the keys that the texts hold. -/
theorem load_keys_differ (w : World) (options : Options) (source : Source) :
    (∀ D, load w options source = .ok D → D.KeysDiffer) ∧
    (∀ (l : Loader) (paths : List Path) (documents : List (Path × Value)),
      paths.mapM (l.resolver w (l.included w)).loadNamed = .ok documents →
        ∀ document ∈ documents, document.2.KeysDiffer) ∧
    ∀ (l : Loader) (v u : Value), v.resolved (l.resolver w (l.included w)) = .ok u →
      u.KeysDiffer := by
  have hincluded : ∀ (l : Loader) (q : Path) (D : Value), l.included w q = .ok D → D.Distinct :=
    fun l q D hD => Value.kept_distinct.loadFile hD
  refine ⟨fun D hD => (Loader.distinct_of_load hD).keysDiffer, ?_, ?_⟩
  · intro l paths documents hdocuments document hdocument
    have hloaded := (Resolver.load_of_mapM_loadNamed hdocuments).2 document hdocument
    exact (hincluded l _ _ hloaded).keysDiffer
  · intro l v u hu
    exact (Value.kept_distinct.resolved (hincluded l) hu).keysDiffer

end YamlWeave
