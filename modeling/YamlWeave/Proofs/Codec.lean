import YamlWeave.Codec
import YamlWeave.Proofs.Loader.Kept

/-!
# Reading documents as something of a type

A codec is exact when it reads a value as a thing just where it writes the thing as this value
(`Codec.Exact`). Lists and tables of things that have an exact codec are read as they are written,
too, but for two liberties: null stands for the empty ones (`decode_list_eq_ok`), and the entries of
a mapping may come in any order (`decode_table_eq_ok`). A table has its rows in the order of their
names, so it does not show which order that was. That no name occurs twice is owed to the keys of a
document, which are distinct.

A load of a type fails as the load does, and apart from that depends on what the document stands
for alone (`typed_loads_add_type_check`).
-/

set_option autoImplicit false

namespace YamlWeave

/-- A row of steps that each undo a way of writing gives what was written. `Fits` says which things
can be written at all, so a row that is read holds no other things. -/
theorem forall₂_undo_iff {α β : Type} {Fits : α → Prop} {write : α → β} {written : List β}
    {things : List α} :
    List.Forall₂ (fun b a => Fits a ∧ b = write a) written things ↔
      (∀ a ∈ things, Fits a) ∧ written = things.map write := by
  induction things generalizing written with
  | nil => simp
  | cons a things ih =>
    rw [List.forall₂_cons_right_iff, List.forall_mem_cons, List.map_cons]
    constructor
    · rintro ⟨b, rest, ⟨hfits, rfl⟩, hrest, rfl⟩
      obtain ⟨hall, rfl⟩ := ih.mp hrest
      exact ⟨⟨hfits, hall⟩, rfl⟩
    · rintro ⟨⟨hfits, hall⟩, rfl⟩
      exact ⟨_, _, ⟨hfits, rfl⟩, ih.mpr ⟨hall, rfl⟩, rfl⟩

/-- Mappings of the same entries, whatever their order. -/
def Value.Reordered (v u : Value) : Prop :=
  ∃ entries others : Entries, v = .mapping entries ∧ u = .mapping others ∧ entries.Perm others

namespace Codec

variable {α : Type} {element : Codec α} {Fits : α → Prop} {v : Value}

/-- A codec reads a value as a thing exactly when it writes the thing as this value, for things that
fit the format. -/
def Exact (codec : Codec α) (Fits : α → Prop) : Prop :=
  ∀ v thing, codec.decode v = .ok thing ↔ Fits thing ∧ v = codec.encode thing

/-! ## Scalars -/

/-- Every value can be asked for, and is given as it is. -/
theorem exact_value : value.Exact fun _ => True := by
  intro v thing
  simp [value]

/-- Only truth values are read as truth values: a string that spells one is refused. -/
theorem exact_bool : bool.Exact fun _ => True := by
  intro v b
  cases v <;> simp [bool]

/-- Only strings are read as strings. A number is refused, although it has a text wherever the name
of a file or of a variable is read. -/
theorem exact_string : string.Exact fun _ => True := by
  intro v s
  cases v <;> simp [string]

/-- Whether a whole number fits 64 bits with a sign. -/
def FitsInt (i : Int) : Prop :=
  leastInt ≤ i ∧ i ≤ greatestInt

/-- Whole numbers are read as far as they fit 64 bits with a sign. A value may hold greater ones,
since a plain scalar may use the 64 bits without a sign. -/
theorem exact_int : int.Exact FitsInt := by
  intro v i
  cases v with
  | number n =>
    cases n with
    | int j =>
      have hint : Value.number (.int j) = int.encode i ↔ j = i := by
        show Value.number (.int j) = .number (.int i) ↔ _
        simp
      rw [hint]
      simp only [int]
      split
      · next hfits =>
        rw [Except.ok.injEq]
        exact ⟨fun h => ⟨h ▸ hfits, h⟩, fun h => h.2⟩
      · next hfits =>
        refine iff_of_false (fun h => nomatch h) ?_
        rintro ⟨h, rfl⟩
        exact hfits h
    | float x => simp [int, Value.int]
  | _ => simp [int, Value.int]

/-! ## Lists -/

/-- A list is read from the sequence of what its elements are written as, and the empty list from
null as well. This second reading is why a list has no exact codec in the sense of `Exact`. -/
theorem decode_list_eq_ok (h : element.Exact Fits) {things : List α} :
    (list element).decode v = .ok things ↔ (∀ thing ∈ things, Fits thing) ∧
      (v = (list element).encode things ∨ things = [] ∧ v = .null) := by
  cases v with
  | null =>
    have hwritten : Value.null ≠ (list element).encode things := nofun
    constructor
    · intro hnull
      cases hnull
      exact ⟨fun _ => nofun, .inr ⟨rfl, rfl⟩⟩
    · rintro ⟨-, hnull | ⟨rfl, -⟩⟩
      · exact absurd hnull hwritten
      · rfl
  | sequence items =>
    have hwritten : Value.sequence items = (list element).encode things ↔
        items = things.map element.encode := by
      show Value.sequence items = .sequence (things.map element.encode) ↔ _
      rw [Value.sequence.injEq]
    have hdecode : (list element).decode (.sequence items) = items.mapM element.decode := rfl
    have hnull : ¬ (things = [] ∧ Value.sequence items = .null) := nofun
    rw [hdecode, mapM_eq_ok, hwritten, or_iff_left hnull, ← forall₂_undo_iff]
    simp only [h _ _]
  | _ => simp [list]

/-! ## Tables -/

/-- What the row of a table is written as. -/
def writeRow (element : Codec α) (row : String × α) : Value × Value :=
  (.string row.1, element.encode row.2)

/-- The row of a table that an entry is read as. -/
def readRow (element : Codec α) (entry : Value × Value) : Except Mismatch (String × α) := do
  let name ← string.decode entry.1
  return (name, ← element.decode entry.2)

/-- A row of a table is read from the entry that it is written as, and from no other. Its key has to
be a string, for a name is read by the codec of strings. -/
theorem readRow_eq_ok (h : element.Exact Fits) {entry : Value × Value} {row : String × α} :
    readRow element entry = .ok row ↔ Fits row.2 ∧ entry = element.writeRow row := by
  obtain ⟨key, value⟩ := entry
  obtain ⟨name, thing⟩ := row
  rw [readRow, bind_eq_ok]
  constructor
  · rintro ⟨name', hname, hrow⟩
    obtain ⟨thing', hthing, heq⟩ := bind_eq_ok.mp hrow
    cases heq
    obtain ⟨-, rfl⟩ := (exact_string key name).mp hname
    obtain ⟨hfits, rfl⟩ := (h value thing).mp hthing
    exact ⟨hfits, rfl⟩
  · rintro ⟨hfits, heq⟩
    obtain ⟨rfl, rfl⟩ := Prod.mk.inj heq
    refine ⟨name, rfl, bind_eq_ok.mpr ⟨thing, ?_, rfl⟩⟩
    exact (h _ _).mpr ⟨hfits, rfl⟩

/-- Entries are read row by row, in their order. Nothing is sorted yet, and two rows may still have
one name. -/
theorem mapM_readRow_eq_ok (h : element.Exact Fits) {entries : Entries}
    {rows : List (String × α)} : entries.mapM (readRow element) = .ok rows ↔
      (∀ row ∈ rows, Fits row.2) ∧ entries = rows.map element.writeRow := by
  rw [mapM_eq_ok, ← forall₂_undo_iff]
  simp only [readRow_eq_ok h]

/-- Rows stand in the order of their names, and no name occurs twice. -/
def Ordered (rows : List (String × α)) : Prop :=
  rows.Pairwise fun row later => row.1 < later.1

/-- Sorted rows stand in the order of their names, where names that occur twice are not excluded. -/
theorem pairwise_mergeSort_nameOrder (rows : List (String × α)) :
    (rows.mergeSort nameOrder).Pairwise fun row later => row.1 ≤ later.1 := by
  have hsorted : (rows.mergeSort nameOrder).Pairwise fun row later =>
      nameOrder row later = true := by
    refine List.pairwise_mergeSort ?_ ?_ rows
    · intro a b c hab hbc
      simp only [nameOrder, decide_eq_true_eq] at hab hbc ⊢
      exact String.le_trans hab hbc
    · intro a b
      simpa [nameOrder] using String.le_total a.1 b.1
  exact hsorted.imp fun hpair => by simpa [nameOrder] using hpair

/-- Rows of different names are ordered once they are sorted. Different names are what turns the
order of `pairwise_mergeSort_nameOrder` into a strict one. -/
theorem ordered_mergeSort {rows : List (String × α)}
    (h : rows.Pairwise fun row later => row.1 ≠ later.1) : Ordered (rows.mergeSort nameOrder) := by
  have hne := (List.Perm.pairwise_iff (fun h => h.symm)
    (List.mergeSort_perm rows nameOrder)).mpr h
  refine ((pairwise_mergeSort_nameOrder rows).and hne).imp fun ⟨hle, hne⟩ => ?_
  exact String.not_le.mp fun hge => hne (String.le_antisymm hle hge)

/-- An ordered table is what sorting makes of its rows, in whatever order they come. Since its order
is strict, no two arrangements of the same rows are both ordered. -/
theorem Ordered.mergeSort_eq {rows sorted : List (String × α)} (h : Ordered sorted)
    (hperm : rows.Perm sorted) : rows.mergeSort nameOrder = sorted := by
  have hne : sorted.Pairwise fun row later => row.1 ≠ later.1 := by
    refine List.Pairwise.imp ?_ h
    intro row later hlt hname
    exact String.lt_irrefl _ (hname ▸ hlt)
  have hrows := ordered_mergeSort ((List.Perm.pairwise_iff (fun h => h.symm) hperm).mpr hne)
  refine List.Perm.eq_of_pairwise ?_ hrows h ((List.mergeSort_perm rows nameOrder).trans hperm)
  intro row other _ _ hlt hgt
  exact absurd hgt (String.lt_asymm hlt)

/-- Rows that are written under distinct keys have different names. Keys of a document are distinct,
which is how `decode_table_eq_ok` gets by without a check for names that occur twice. -/
theorem names_ne_of_distinct {rows : List (String × α)}
    (h : Entries.Distinct (rows.map element.writeRow)) :
    rows.Pairwise fun row later => row.1 ≠ later.1 := by
  rw [Entries.Distinct, List.pairwise_map] at h
  refine h.imp fun hkeys hname => ?_
  rw [writeRow, writeRow, hname, Value.same_refl (Value.distinct_of_isScalar rfl)] at hkeys
  cases hkeys

/-- A table is read from a mapping of its rows, in whatever order, and the empty table from null as
well. The value has to have distinct keys. In a mapping with a key twice, the last entry would count
for a reader and be missing from what is written. -/
theorem decode_table_eq_ok (h : element.Exact Fits) (hv : v.Distinct) {rows : List (String × α)} :
    (table element).decode v = .ok rows ↔ (Ordered rows ∧ ∀ row ∈ rows, Fits row.2) ∧
      (v.Reordered ((table element).encode rows) ∨ rows = [] ∧ v = .null) := by
  cases v with
  | null =>
    constructor
    · intro hnull
      cases hnull
      exact ⟨⟨.nil, fun _ => nofun⟩, .inr ⟨rfl, rfl⟩⟩
    · rintro ⟨-, ⟨_, _, hmapping, -⟩ | ⟨rfl, -⟩⟩
      · exact nomatch hmapping
      · rfl
  | mapping entries =>
    have hdecode : (table element).decode (.mapping entries) =
        (entries.mapM (readRow element) >>= fun rows => pure (rows.mergeSort nameOrder)) := rfl
    rw [hdecode, bind_eq_ok]
    constructor
    · rintro ⟨read, hread, hsort⟩
      cases hsort
      obtain ⟨hfits, rfl⟩ := (mapM_readRow_eq_ok h).mp hread
      have hperm := List.mergeSort_perm read nameOrder
      have hnames := names_ne_of_distinct (Value.distinct_mapping_iff.mp hv).1
      refine ⟨⟨ordered_mergeSort hnames, ?_⟩, .inl ⟨_, _, rfl, rfl, (hperm.map _).symm⟩⟩
      intro row hrow
      exact hfits row (List.mem_mergeSort.mp hrow)
    · rintro ⟨⟨hordered, hfits⟩, ⟨_, _, hothers, hwritten, hperm⟩ | ⟨-, hnull⟩⟩
      · cases hothers
        cases hwritten
        have hread : List.Forall₂ (fun entry row => Fits row.2 ∧ entry = element.writeRow row)
            (rows.map element.writeRow) rows := forall₂_undo_iff.mpr ⟨hfits, rfl⟩
        -- The entries are read in the order of the text, which the rows take on.
        obtain ⟨read, hread, hrows⟩ := List.perm_comp_forall₂ hperm hread
        exact ⟨read, (mapM_readRow_eq_ok h).mpr (forall₂_undo_iff.mp hread),
          congrArg Except.ok (hordered.mergeSort_eq hrows)⟩
      · exact nomatch hnull
  | _ =>
    refine iff_of_false (fun h => nomatch h) ?_
    rintro ⟨-, ⟨_, _, hmapping, -⟩ | ⟨-, hnull⟩⟩
    · exact nomatch hmapping
    · exact nomatch hnull

end Codec

/-! ## Typed loads -/

/-- A load of a type gives the things that stand for the document of the source, and no others. It
fails as the load does when that fails, and as a mismatch when nothing of the type stands for the
document. -/
structure AddsTypeCheck {α : Type} (w : World) (source : Source) (codec : Codec α)
    (Stands : α → Value → Prop) : Prop where
  failed : ∀ failure, load w .standard source = .error failure →
    loadAs w codec source = .error failure
  loaded : ∀ D, load w .standard source = .ok D →
    ∀ thing, loadAs w codec source = .ok thing ↔ Stands thing D
  mistyped : ∀ D, load w .standard source = .ok D → (∀ thing, ¬ Stands thing D) →
    ∃ mismatch, loadAs w codec source = .error (.mistyped source.name mismatch)

/-- Once the document is there, a load of a type is the codec alone, and its failure names the
source and not a place in the document. -/
theorem loadAs_of_load {α : Type} {w : World} {source : Source} {D : Value}
    (h : load w .standard source = .ok D) (codec : Codec α) :
    loadAs w codec source = (codec.decode D).mapError (.mistyped source.name) := by
  rw [loadAs, h]
  rfl

/-- Keys of a document are distinct, so what a codec makes of other values does not matter. The laws
of single codecs are all that a typed load needs beside this. -/
theorem Codec.addsTypeCheck {α : Type} {codec : Codec α} {Stands : α → Value → Prop}
    (hdecode : ∀ D, D.Distinct → ∀ thing, codec.decode D = .ok thing ↔ Stands thing D) (w : World)
    (source : Source) : AddsTypeCheck w source codec Stands where
  failed failure hload := by
    rw [loadAs, hload]
    rfl
  loaded D hload thing := by
    rw [loadAs_of_load hload, mapError_eq_ok, hdecode D (Loader.distinct_of_load hload)]
  mistyped D hload hnone := by
    rw [loadAs_of_load hload]
    cases hdecoded : codec.decode D with
    | error mismatch => exact ⟨mismatch, rfl⟩
    | ok thing =>
      exact absurd ((hdecode D (Loader.distinct_of_load hload) thing).mp hdecoded) (hnone thing)

/-- **A load of a type adds the check of the type and nothing else.** Of a file or a text it gives
the thing that is written as the document of the source, and for null the empty list or the empty
table. The entries of a table may come in any order, and its numbers fit 64 bits with a sign. When
the document is none of these, that is a mismatch, which is reported for the source. A source that
cannot be loaded fails as it does without a type. -/
theorem typed_loads_add_type_check (w : World) (source : Source) :
    AddsTypeCheck w source .value (fun u v => v = Codec.value.encode u) ∧
    AddsTypeCheck w source .bool (fun b v => v = Codec.bool.encode b) ∧
    AddsTypeCheck w source .string (fun s v => v = Codec.string.encode s) ∧
    AddsTypeCheck w source (.list .string) (fun items v =>
      v = (Codec.list .string).encode items ∨ items = [] ∧ v = .null) ∧
    AddsTypeCheck w source (.table .int) (fun rows v =>
      (Codec.Ordered rows ∧ ∀ row ∈ rows, Codec.FitsInt row.2) ∧
        (v.Reordered ((Codec.table .int).encode rows) ∨ rows = [] ∧ v = .null)) := by
  refine ⟨Codec.addsTypeCheck ?_ w source, Codec.addsTypeCheck ?_ w source,
    Codec.addsTypeCheck ?_ w source, Codec.addsTypeCheck ?_ w source,
    Codec.addsTypeCheck ?_ w source⟩
  · intro D _ u
    rw [Codec.exact_value, true_and]
  · intro D _ b
    rw [Codec.exact_bool, true_and]
  · intro D _ s
    rw [Codec.exact_string, true_and]
  · intro D _ items
    rw [Codec.decode_list_eq_ok Codec.exact_string]
    exact and_iff_right fun _ _ => trivial
  · intro D hD rows
    exact Codec.decode_table_eq_ok Codec.exact_int hD

end YamlWeave
