import YamlWeave.Resolve
import YamlWeave.Proofs.Value.Merging
import YamlWeave.Proofs.Value.Overlay

/-!
# What a merge key does

A mapping whose merge key is resolved holds its other entries and, of each mapping that it takes in,
the entries whose keys neither the mapping itself has nor a mapping taken in before
(`mem_flatten_iff`). Its merge key can be resolved exactly when under it stands a mapping, or a
sequence of mappings only (`exists_flatten_iff`). A merge key among the entries taken in is a key
like any other.

Carried through the values of these entries, both laws are laws of whole values. `Value.Met` says
which values merging comes to, and a value can be merged exactly when each mapping among them allows
it (`exists_merged_iff`). What comes out is described by `Value.MergesTo`, which asks nothing about
order (`mergesTo_of_merged`).
-/

set_option autoImplicit false

namespace YamlWeave

open Value

namespace Value

/-- The mappings that are taken in where this value stands under a merge key. -/
def sources : Value → List Entries
  | .mapping entries => [entries]
  | .sequence items => items.map Value.entries
  | _ => []

/-- Whether this value can stand under a merge key: a mapping, or a sequence of mappings only. -/
def isMergeable : Value → Bool
  | .mapping _ => true
  | .sequence items => items.all (·.kind == .mapping)
  | _ => false

end Value

namespace Entries

variable {entries additions own merged flat : Entries} {entry : Value × Value} {x y : Value}

/-! ## Taking in -/

/-- Keys that are the same occur together. -/
theorem contains_congr (h : Proper entries) (hx : x.Distinct) (hy : y.Distinct)
    (hsame : x.same y = true) : contains x entries = contains y entries := by
  rw [Bool.eq_iff_iff, contains, contains, List.any_eq_true, List.any_eq_true]
  refine exists_congr fun entry => and_congr_right fun hentry => ?_
  rw [same_congr_left hx hy (h entry hentry) hsame]

/-- Entries that are taken in come last, in their order, as far as their keys are new. The additions
have to be distinct: the second of two new keys that are the same would be passed over. -/
theorem addMissing_of_distinct (h : Distinct additions) :
    entries.addMissing additions =
      entries ++ additions.filter fun addition => !contains addition.1 entries := by
  unfold addMissing
  induction additions generalizing entries with
  | nil => simp
  | cons addition additions ih =>
    obtain ⟨hfirst, hrest⟩ := List.pairwise_cons.mp h
    rw [List.foldl_cons]
    by_cases hkey : contains addition.1 entries = true
    · simp [hkey, ih hrest]
    · have hfilter : (additions.filter fun other => !contains other.1 (entries ++ [addition])) =
          additions.filter fun other => !contains other.1 entries := by
        apply List.filter_congr
        intro other hother
        simp [contains, hfirst other hother]
      simp [hkey, ih hrest, hfilter]

/-- What is there stays, and what is taken in is found where nothing is there. In terms of look-ups,
taking in is `Option.or`. -/
theorem get?_addMissing (h : Proper entries) (hadditions : Proper additions) (hx : x.Distinct) :
    get? x (entries.addMissing additions) = (get? x entries).or (get? x additions) := by
  unfold addMissing
  induction additions generalizing entries with
  | nil => simp
  | cons addition additions ih =>
    obtain ⟨haddition, hrest⟩ := proper_cons.mp hadditions
    rw [List.foldl_cons, get?_cons]
    by_cases hkey : contains addition.1 entries = true
    · rw [if_pos hkey, ih h hrest]
      by_cases hsame : x.same addition.1 = true
      · rw [← contains_congr h hx haddition hsame, contains_eq_isSome] at hkey
        obtain ⟨value, hvalue⟩ := Option.isSome_iff_exists.mp hkey
        simp [hvalue]
      · simp [hsame]
    · have happended : Proper (entries ++ [addition]) :=
        proper_append.mpr ⟨h, proper_cons.mpr ⟨haddition, fun _ => nofun⟩⟩
      rw [if_neg hkey, ih happended hrest, get?_append, get?_cons, Option.or_assoc]
      by_cases hsame : x.same addition.1 = true <;> simp [hsame]

/-- A key occurs afterwards exactly when it was there or was taken in. -/
theorem contains_addMissing (h : Proper entries) (hadditions : Proper additions)
    (hx : x.Distinct) :
    contains x (entries.addMissing additions) = (contains x entries || contains x additions) := by
  simp [contains_eq_isSome, get?_addMissing h hadditions hx]

/-- Keys that are taken in can be told apart when all of them could. -/
theorem proper_addMissing (h : Proper entries) (hadditions : Proper additions) :
    Proper (entries.addMissing additions) :=
  fun entry hentry => (mem_addMissing hentry).elim (h entry) (hadditions entry)

/-- Entries that are there stay, and of the others those come whose keys are not there. -/
theorem mem_addMissing_iff (hadditions : Distinct additions) :
    entry ∈ entries.addMissing additions ↔
      entry ∈ entries ∨ (entry ∈ additions ∧ contains entry.1 entries = false) := by
  simp [addMissing_of_distinct hadditions]

/-- Of several mappings that are taken in, each gives the entries whose keys are not there and in no
mapping before it. This is the precedence of merge keys, said without the order in which it is
computed. -/
theorem mem_foldl_addMissing {sources : List Entries} (h : Proper own)
    (hsources : ∀ source ∈ sources, Keyed source) :
    entry ∈ sources.foldl addMissing own ↔
      entry ∈ own ∨ ∃ front source back, sources = front ++ source :: back ∧ entry ∈ source ∧
        contains entry.1 own = false ∧ ∀ earlier ∈ front, contains entry.1 earlier = false := by
  induction sources generalizing own with
  | nil => simp
  | cons first rest ih =>
    obtain ⟨hfirst, hrest⟩ := List.forall_mem_cons.mp hsources
    rw [List.foldl_cons, ih (proper_addMissing h hfirst.proper) hrest,
      mem_addMissing_iff hfirst.distinct]
    constructor
    · rintro ((hown | ⟨hentry, hnew⟩) | ⟨front, source, back, rfl, hentry, hnew, hfront⟩)
      · exact .inl hown
      · exact .inr ⟨[], first, rest, rfl, hentry, hnew, fun _ => nofun⟩
      · have hkey := (hrest source (List.mem_append_right front List.mem_cons_self)).proper _ hentry
        rw [contains_addMissing h hfirst.proper hkey, Bool.or_eq_false_iff] at hnew
        exact .inr ⟨first :: front, source, back, rfl, hentry, hnew.1,
          List.forall_mem_cons.mpr ⟨hnew.2, hfront⟩⟩
    · rintro (hown | ⟨front, source, back, hsplit, hentry, hnew, hfront⟩)
      · exact .inl (.inl hown)
      · cases front with
        | nil =>
          obtain ⟨rfl, rfl⟩ := List.cons.inj hsplit
          exact .inl (.inr ⟨hentry, hnew⟩)
        | cons _ front =>
          obtain ⟨rfl, rfl⟩ := List.cons.inj hsplit
          obtain ⟨hnotFirst, hfront⟩ := List.forall_mem_cons.mp hfront
          have hsource := hrest source (List.mem_append_right front List.mem_cons_self)
          refine .inr ⟨front, source, back, rfl, hentry, ?_, hfront⟩
          rw [contains_addMissing h hfirst.proper (hsource.proper _ hentry), hnew, hnotFirst]
          rfl

/-- A sequence is taken in when all its elements are mappings, and then one mapping after the
other. -/
theorem takeInAll_eq_ok {items : List Value} : entries.takeInAll items = .ok merged ↔
    (∀ item ∈ items, item.kind = .mapping) ∧
      merged = (items.map Value.entries).foldl addMissing entries := by
  induction items generalizing entries with
  | nil => simp [takeInAll, eq_comm]
  | cons item items ih =>
    cases item with
    | mapping additions => simp [takeInAll, ih, Value.kind, Value.entries]
    | _ => simp [takeInAll, Value.kind]

/-- A value is taken in when it is a mapping or a sequence of mappings, and what it gives are
these. -/
theorem takeIn_eq_ok {source : Value} : entries.takeIn source = .ok merged ↔
    source.isMergeable = true ∧ merged = source.sources.foldl addMissing entries := by
  cases source with
  | mapping additions => simp [takeIn, Value.isMergeable, Value.sources, eq_comm]
  | sequence items => simp [takeIn, Value.isMergeable, Value.sources, takeInAll_eq_ok]
  | _ => simp [takeIn, Value.isMergeable]

/-! ## Resolving the merge key of a mapping -/

/-- The mappings that a mapping takes in: what stands under its merge key. -/
def sources (entries : Entries) : List Entries :=
  (get? mergeKey entries).elim [] Value.sources

/-- Whether a mapping has no merge key, or one whose value can stand there. -/
def isMergeable (entries : Entries) : Bool :=
  (get? mergeKey entries).all Value.isMergeable

/-- The entries of a mapping without its merge key. -/
def ownEntries (entries : Entries) : Entries :=
  entries.filter fun entry => !mergeKey.same entry.1

/-- The merge key is a string, so it can be compared with all keys. -/
theorem distinct_mergeKey : mergeKey.Distinct :=
  distinct_of_isScalar rfl

theorem mergeKey_same {key : Value} : mergeKey.same key = true ↔ key = mergeKey := by
  cases key with
  | string s =>
    show ("<<" == s) = true ↔ string s = string "<<"
    rw [beq_iff_eq, string.injEq, eq_comm]
  | _ => exact ⟨nofun, nofun⟩

theorem mem_ownEntries : entry ∈ ownEntries entries ↔ entry ∈ entries ∧ entry.1 ≠ mergeKey := by
  rw [ownEntries, List.mem_filter, Bool.not_eq_true', ← Bool.not_eq_true, mergeKey_same]

/-- What is left of a mapping when its merge key is taken out. -/
def leftEntries (entries : Entries) : Entries :=
  (entries.takeOut? mergeKey).elim entries (·.2)

/-- Taking the merge key out gives what stands under it. -/
theorem get?_mergeKey (h : Keyed entries) :
    get? mergeKey entries = (entries.takeOut? mergeKey).map (·.1) := by
  cases hfound : entries.takeOut? mergeKey with
  | none => exact get?_eq_none.mpr (takeOut?_eq_none.mp hfound)
  | some found =>
    obtain ⟨source, left⟩ := found
    obtain ⟨key, hkey, hperm⟩ := perm_of_takeOut? hfound
    have hmem : (key, source) ∈ entries := hperm.mem_iff.mpr List.mem_cons_self
    exact (get?_eq_some_iff h distinct_mergeKey).mpr ⟨key, hmem, hkey⟩

/-- Taking the merge key out leaves the other entries, in some order. The order is known, but no law
of look-ups needs it. -/
theorem leftEntries_perm (h : Keyed entries) : (leftEntries entries).Perm (ownEntries entries) := by
  rw [leftEntries, ownEntries]
  cases hfound : entries.takeOut? mergeKey with
  | none =>
    have hnone := contains_eq_false.mp (takeOut?_eq_none.mp hfound)
    have hown : entries.filter (fun entry => !mergeKey.same entry.1) = entries :=
      List.filter_eq_self.mpr fun entry hentry => by simp [hnone entry hentry]
    rw [hown]
    rfl
  | some found =>
    obtain ⟨source, left⟩ := found
    obtain ⟨key, hkey, hperm⟩ := perm_of_takeOut? hfound
    have hpairs := (hperm.pairwise_iff fun hpair => hpair.symm).mp h.both
    have hleft : left.filter (fun entry => !mergeKey.same entry.1) = left := by
      refine List.filter_eq_self.mpr fun entry hentry => ?_
      have hne := ((List.pairwise_cons.mp hpairs).1 entry hentry).1
      rw [mergeKey_same.mp hkey] at hne
      simp [hne]
    have hown := hperm.filter fun entry => !mergeKey.same entry.1
    rw [List.filter_cons_of_neg (by simp [hkey]), hleft] at hown
    exact hown.symm

theorem proper_leftEntries (h : Keyed entries) : Proper (leftEntries entries) :=
  fun entry hentry => h.proper entry (mem_ownEntries.mp ((leftEntries_perm h).mem_iff.mp hentry)).1

/-- Resolving the merge key leaves the other entries and takes in the mappings under it. Merge keys
that these hold come in with them and are not resolved. -/
theorem flatten_eq_ok (h : Keyed entries) : entries.flatten = .ok flat ↔
    entries.isMergeable = true ∧ flat = entries.sources.foldl addMissing (leftEntries entries) := by
  rw [isMergeable, sources, leftEntries, get?_mergeKey h, flatten]
  cases entries.takeOut? mergeKey with
  | none => simp [eq_comm]
  | some found => simp [takeIn_eq_ok]

/-- The entries that a mapping has once its merge key is resolved. -/
inductive Offers (entries : Entries) : Value × Value → Prop
  /-- An entry under another key than the merge key stays as it is. -/
  | own {entry : Value × Value} (hentry : entry ∈ entries) (hkey : entry.1 ≠ mergeKey) :
      Offers entries entry
  /-- An entry of a mapping that is taken in comes from the first of these mappings that has its
  key, unless the key is there already. -/
  | taken {entry : Value × Value} {front back : List Entries} {source : Entries}
      (hsources : entries.sources = front ++ source :: back) (hentry : entry ∈ source)
      (hown : contains entry.1 (ownEntries entries) = false)
      (hfront : ∀ earlier ∈ front, contains entry.1 earlier = false) : Offers entries entry

/-- What a mapping takes in has distinct keys if the mapping has them at every depth, since all that
is taken in stood inside it, under its merge key. -/
theorem keyed_of_mem_sources (h : (mapping entries).Distinct) {source : Entries}
    (hsource : source ∈ entries.sources) : Keyed source := by
  unfold sources at hsource
  cases hvalue : get? mergeKey entries with
  | none =>
    rw [hvalue] at hsource
    cases hsource
  | some value =>
    rw [hvalue] at hsource
    obtain ⟨key, hmem, -⟩ :=
      (get?_eq_some_iff (keyed_of_distinct h) distinct_mergeKey).mp hvalue
    have hdistinct : value.Distinct := h.value hmem
    cases value with
    | mapping entries => exact List.mem_singleton.mp hsource ▸ keyed_of_distinct hdistinct
    | sequence items =>
      obtain ⟨item, hitem, rfl⟩ := List.mem_map.mp hsource
      cases item with
      | mapping entries => exact keyed_of_distinct (hdistinct.part hitem)
      | _ => exact ⟨.nil, fun _ => nofun⟩
    | _ => cases hsource

/-- A merge key can be resolved when under it stands a mapping, or a sequence of mappings only.
Without a merge key there is nothing to refuse. -/
theorem exists_flatten_iff (h : Keyed entries) :
    (∃ flat, entries.flatten = .ok flat) ↔ entries.isMergeable = true := by
  simp [flatten_eq_ok h]

/-- A resolved mapping has the entries that the mapping offers, and no others. From here on merging
is described by `Entries.Offers`, which mentions no order. -/
theorem mem_flatten_iff (h : (mapping entries).Distinct) (hflat : entries.flatten = .ok flat) :
    entry ∈ flat ↔ entries.Offers entry := by
  have hkeyed := keyed_of_distinct h
  have hperm := leftEntries_perm hkeyed
  have hcontains : ∀ key, contains key (leftEntries entries) = contains key (ownEntries entries) :=
    fun key => hperm.any_eq
  obtain ⟨-, rfl⟩ := (flatten_eq_ok hkeyed).mp hflat
  rw [mem_foldl_addMissing (proper_leftEntries hkeyed) fun _ => keyed_of_mem_sources h,
    hperm.mem_iff, mem_ownEntries, hcontains]
  constructor
  · rintro (⟨hentry, hkey⟩ | ⟨front, source, back, hsources, hentry, hown, hfront⟩)
    · exact .own hentry hkey
    · exact .taken hsources hentry hown hfront
  · rintro (⟨hentry, hkey⟩ | ⟨hsources, hentry, hown, hfront⟩)
    · exact .inl ⟨hentry, hkey⟩
    · exact .inr ⟨_, _, _, hsources, hentry, hown, hfront⟩

end Entries

namespace Value

variable {entries : Entries} {items : List Value} {tag : Tag} {content v u x : Value}

/-! ## One value at a time -/

/-- The values that merging goes on with, in their order. -/
def children : Value → List Value
  | .mapping entries => entries.map (·.2)
  | .sequence items => items
  | .tagged _ content => [content]
  | _ => []

/-- A value with others in place of those that merging goes on with. Keys stay. -/
def withChildren : Value → List Value → Value
  | .mapping entries, values => .mapping ((entries.map (·.1)).zip values)
  | .sequence _, items => .sequence items
  | .tagged tag _, [content] => .tagged tag content
  | value, _ => value

/-- A value with its own merge key resolved, when it is a mapping, and nothing else done. -/
def flattened : Value → Except MergeFault Value
  | .mapping entries => .mapping <$> Entries.flatten entries
  | value => .ok value

/-- Merging resolves the merge key of a value and goes on with its children. The children are those
after the first step, so entries taken in are merged too. -/
theorem merged_eq (v : Value) :
    v.merged = v.flattened >>= fun node => node.withChildren <$> mergedItems node.children := by
  cases v with
  | mapping entries =>
    rw [merged_mapping, flattened]
    cases Entries.flatten entries with
    | error fault => rfl
    | ok flat =>
      show mapping <$> mergedEntries flat = _
      rw [mergedEntries_eq, map_eq_pure_bind, map_eq_pure_bind, bind_assoc]
      rfl
  | sequence items => exact merged_sequence items
  | tagged tag content =>
    rw [merged_tagged]
    show _ = (tagged tag content).withChildren <$> mergedItems [content]
    rw [mergedItems, mergedItems]
    cases merged content <;> rfl
  | _ =>
    show _ = _ <$> mergedItems []
    simp [merged, mergedItems, withChildren, Functor.map, Except.map]

/-- What holds of a value as soon as it holds of its children, once its merge key is resolved, holds
of every value. It is well-founded by weight, as the children are not parts of the value. -/
theorem children_induction {P : Value → Prop}
    (step : ∀ v : Value, (∀ node, v.flattened = .ok node → ∀ x ∈ node.children, P x) → P v)
    (v : Value) : P v := by
  induction v using merged_induction with
  | mapping entries ih =>
    refine step _ fun node hnode x hx => ?_
    obtain ⟨flat, hflat, rfl⟩ := map_eq_ok.mp hnode
    obtain ⟨entry, hentry, rfl⟩ := List.mem_map.mp hx
    exact ih flat hflat entry hentry
  | sequence items ih =>
    refine step _ fun node hnode x hx => ?_
    cases hnode
    exact ih x hx
  | tagged tag content ih =>
    refine step _ fun node hnode x hx => ?_
    cases hnode
    exact List.mem_singleton.mp hx ▸ ih
  | scalar v hparts _ hkind =>
    refine step _ fun node hnode x hx => ?_
    cases v with
    | mapping entries => exact absurd rfl (hkind entries)
    | sequence items =>
      cases hnode
      exact absurd (show x ∈ (sequence items).parts from hx) (hparts ▸ List.not_mem_nil)
    | tagged tag content => cases hparts
    | _ =>
      cases hnode
      cases hx

/-! ## The values that merging comes to -/

/-- Merging comes from a value to another one through the values of the entries that mappings offer,
the ones taken in included, through elements and through what stands under tags. Keys are not
entered, and neither is what stands under a merge key that is resolved. -/
inductive Met : Value → Value → Prop
  | self (v : Value) : Met v v
  | entry {x : Value} {entries : Entries} {entry : Value × Value} (hentry : entries.Offers entry)
      (h : Met x entry.2) : Met x (mapping entries)
  | item {x : Value} {items : List Value} {item : Value} (hitem : item ∈ items) (h : Met x item) :
      Met x (sequence items)
  | content {x content : Value} {tag : Tag} (h : Met x content) : Met x (tagged tag content)

/-- Every mapping that merging comes to has no merge key, or one that can be resolved. -/
def Mergeable (v : Value) : Prop :=
  ∀ entries, (mapping entries).Met v → Entries.isMergeable entries = true

/-- A mapping is mergeable when its own merge key is, and every value that it offers. -/
theorem mergeable_mapping_iff : (mapping entries).Mergeable ↔
    Entries.isMergeable entries = true ∧ ∀ entry, entries.Offers entry → entry.2.Mergeable := by
  constructor
  · exact fun h => ⟨h entries (.self _), fun _ hentry others hothers =>
      h others (.entry hentry hothers)⟩
  · rintro ⟨hown, hvalues⟩ others hothers
    cases hothers with
    | self => exact hown
    | entry hentry hothers => exact hvalues _ hentry others hothers

/-- A value is mergeable when its own merge key can be resolved and its children are mergeable then.
It puts the condition into the form of `merged_eq`. -/
theorem mergeable_iff (h : v.Distinct) : v.Mergeable ↔
    ∃ node, v.flattened = .ok node ∧ ∀ x ∈ node.children, x.Mergeable := by
  cases v with
  | mapping entries =>
    rw [mergeable_mapping_iff, ← Entries.exists_flatten_iff (Entries.keyed_of_distinct h)]
    constructor
    · rintro ⟨⟨flat, hflat⟩, hoffers⟩
      refine ⟨_, map_eq_ok.mpr ⟨flat, hflat, rfl⟩, fun x hx => ?_⟩
      obtain ⟨entry, hentry, rfl⟩ := List.mem_map.mp hx
      exact hoffers entry ((Entries.mem_flatten_iff h hflat).mp hentry)
    · rintro ⟨node, hnode, hchildren⟩
      obtain ⟨flat, hflat, rfl⟩ := map_eq_ok.mp hnode
      refine ⟨⟨flat, hflat⟩, fun entry hentry => ?_⟩
      exact hchildren _ (List.mem_map_of_mem ((Entries.mem_flatten_iff h hflat).mpr hentry))
  | sequence items =>
    constructor
    · exact fun hitems => ⟨_, rfl, fun x hx others hothers => hitems others (.item hx hothers)⟩
    · rintro ⟨node, hnode, hchildren⟩ others hothers
      cases hnode
      cases hothers with
      | item hitem hothers => exact hchildren _ hitem others hothers
  | tagged tag content =>
    constructor
    · refine fun hcontent => ⟨_, rfl, fun x hx others hothers => ?_⟩
      exact hcontent others (.content (List.mem_singleton.mp hx ▸ hothers))
    · rintro ⟨node, hnode, hchildren⟩ others hothers
      cases hnode
      cases hothers with
      | content hothers => exact hchildren _ List.mem_cons_self others hothers
  | _ =>
    refine iff_of_true (fun others hothers => ?_) ⟨_, rfl, fun _ => nofun⟩
    cases hothers

/-- Elements can be merged together exactly when each of them can be merged alone, so the order in
which they are merged only decides which failure is told. -/
theorem exists_mergedItems_iff :
    (∃ others, mergedItems items = .ok others) ↔ ∀ item ∈ items, ∃ u, item.merged = .ok u := by
  constructor
  · rintro ⟨others, hothers⟩ item hitem
    obtain ⟨u, -, hu⟩ := exists_left_of_forall₂ (R := fun b a => merged a = .ok b)
      (mergedItems_eq_ok.mp hothers).flip hitem
    exact ⟨u, hu⟩
  · intro h
    cases hmerged : mergedItems items with
    | ok others => exact ⟨others, rfl⟩
    | error fault =>
      obtain ⟨item, hitem, hfault⟩ := exists_of_mergedItems_eq_error hmerged
      obtain ⟨u, hu⟩ := h item hitem
      cases hfault.symm.trans hu

/-- What resolving a merge key gives has distinct keys again, so the laws apply one level down. -/
theorem Distinct.flattened {node : Value} (h : v.Distinct) (hnode : v.flattened = .ok node) :
    node.Distinct := by
  cases v with
  | mapping entries =>
    obtain ⟨flat, hflat, rfl⟩ := map_eq_ok.mp hnode
    exact kept_distinct.flatten h hflat
  | _ =>
    cases hnode
    exact h

theorem Distinct.children (h : v.Distinct) (hx : x ∈ v.children) : x.Distinct := by
  cases v with
  | mapping entries =>
    obtain ⟨entry, hentry, rfl⟩ := List.mem_map.mp hx
    exact h.value hentry
  | sequence items => exact h.part hx
  | tagged tag content => exact h.part hx
  | _ => cases hx

/-- A value can be merged exactly when no mapping that merging comes to stands in the way. Mappings
below merge keys are not among them, unless their entries are taken in. -/
theorem exists_merged_iff (h : v.Distinct) : (∃ u, v.merged = .ok u) ↔ v.Mergeable := by
  induction v using children_induction with
  | step v ih =>
    rw [mergeable_iff h, merged_eq, exists_bind_eq_ok]
    refine exists_congr fun node => and_congr_right fun hnode => ?_
    rw [exists_map_eq_ok, exists_mergedItems_iff]
    exact forall₂_congr fun x hx => ih node hnode x hx ((h.flattened hnode).children hx)

/-! ## What comes out -/

/-- A value is what merging makes of another one, whatever the order of entries: a mapping has the
entries that the other mapping offers, each under its key and with its value merged in turn. -/
inductive MergesTo : Value → Value → Prop
  | scalar {v : Value} (hscalar : v.isScalar = true) : MergesTo v v
  | mapping {entries flat others : Entries} (hoffers : ∀ entry, entry ∈ flat ↔ entries.Offers entry)
      (hdistinct : Entries.Distinct flat) (hkeys : others.map (·.1) = flat.map (·.1))
      (hvalues : ∀ pair ∈ flat.zip others, MergesTo pair.1.2 pair.2.2) :
      MergesTo (.mapping entries) (.mapping others)
  | sequence {items others : List Value} (hlength : others.length = items.length)
      (hitems : ∀ pair ∈ items.zip others, MergesTo pair.1 pair.2) :
      MergesTo (.sequence items) (.sequence others)
  | tagged {tag : Tag} {content other : Value} (h : MergesTo content other) :
      MergesTo (.tagged tag content) (.tagged tag other)

/-- What merging gives is what it should be: each mapping has the entries that it offers, with their
values merged in turn. The induction is on the children, after the merge key is resolved. Distinct
keys are needed so that an offered entry is the one that is found. -/
theorem mergesTo_of_merged (h : v.Distinct) (hmerged : v.merged = .ok u) : v.MergesTo u := by
  induction v using merged_induction generalizing u with
  | mapping entries ih =>
    rw [merged_mapping] at hmerged
    obtain ⟨others, hothers, rfl⟩ := map_eq_ok.mp hmerged
    obtain ⟨flat, hflat, hvalues⟩ := bind_eq_ok.mp hothers
    have hdistinct := kept_distinct.flatten h hflat
    have hpairs := mergedEntries_eq_ok.mp hvalues
    refine .mapping (fun _ => Entries.mem_flatten_iff h hflat) hdistinct.entries ?_ ?_
    · have hkeys := hpairs.imp fun _ _ hpair => hpair.1
      rw [eq_comm]
      rwa [← List.forall₂_eq_eq_eq, List.forall₂_map_left_iff, List.forall₂_map_right_iff]
    · rintro ⟨entry, other⟩ hpair
      have hentry := (List.of_mem_zip hpair).1
      have hvalue := ((List.forall₂_iff_zip.mp hpairs).2 hpair).2
      exact ih flat hflat entry hentry (hdistinct.value hentry) hvalue
  | sequence items ih =>
    rw [merged_sequence] at hmerged
    obtain ⟨others, hothers, rfl⟩ := map_eq_ok.mp hmerged
    have hpairs := mergedItems_eq_ok.mp hothers
    refine .sequence hpairs.length_eq.symm ?_
    rintro ⟨item, other⟩ hpair
    have hitem := (List.of_mem_zip hpair).1
    exact ih item hitem (h.part hitem) ((List.forall₂_iff_zip.mp hpairs).2 hpair)
  | tagged tag content ih =>
    rw [merged_tagged] at hmerged
    obtain ⟨other, hother, rfl⟩ := map_eq_ok.mp hmerged
    exact .tagged (ih (h.part List.mem_cons_self) hother)
  | scalar v hparts hself hkind =>
    cases hself.symm.trans hmerged
    cases v with
    | mapping entries => exact absurd rfl (hkind entries)
    | sequence items =>
      have hempty : items = [] := hparts
      subst hempty
      exact .sequence rfl fun _ => nofun
    | tagged tag content => cases hparts
    | _ => exact .scalar rfl

end Value

end YamlWeave
