import YamlWeave.Proofs.Except
import YamlWeave.Proofs.Value.Distinct
import YamlWeave.Value.Merge

/-!
# Merging, value by value

Merging resolves the merge key of a mapping and then goes on with the values of the entries that
come out of it, some of which were taken in. What holds of a value as soon as it holds of those
values holds of all values (`merged_induction`).

What putting values together keeps, merging keeps (`Kept.merged`). A value that holds no merge key
where merging looks is left as it is, and it is the only kind of value that is
(`merged_eq_self_iff`): a merge key that is resolved leaves the value lighter than it was. So what
merging makes of a value may be changed by merging it again, namely when a merge key was itself
among the entries taken in.
-/

set_option autoImplicit false

namespace YamlWeave

namespace Value

/-! ## One value at a time -/

/-- A mapping is merged by resolving its own merge key first and then the values of its entries. -/
theorem merged_mapping (entries : Entries) :
    merged (.mapping entries) = mapping <$> (entries.flatten >>= mergedEntries) := by
  rw [merged]
  split
  · next fault hflat =>
    rw [hflat]
    rfl
  · next entries' hflat =>
    rw [hflat, map_eq_pure_bind]
    rfl

/-- A sequence is merged element by element, and takes nothing in. -/
theorem merged_sequence (items : List Value) :
    merged (.sequence items) = sequence <$> mergedItems items := by
  rw [merged, map_eq_pure_bind]

theorem merged_tagged (tag : Tag) (content : Value) :
    merged (.tagged tag content) = tagged tag <$> merged content := by
  rw [merged, map_eq_pure_bind]

/-- Entries are merged in their values, which are merged as elements are, and the
keys are put back in front of them. -/
theorem mergedEntries_eq (entries : Entries) :
    mergedEntries entries = (entries.map (·.1)).zip <$> mergedItems (entries.map (·.2)) := by
  induction entries with
  | nil => simp [mergedEntries, mergedItems]
  | cons entry entries ih =>
    rw [mergedEntries, ih, List.map_cons, List.map_cons, mergedItems]
    cases mergedItems (entries.map (·.2)) with
    | error fault => rfl
    | ok values => cases merged entry.2 <;> rfl

/-- Elements are merged one by one. The order in which it is done only matters for failures. -/
theorem mergedItems_eq_ok {items others : List Value} :
    mergedItems items = .ok others ↔ List.Forall₂ (fun a b => merged a = .ok b) items others := by
  induction items generalizing others with
  | nil =>
    rw [mergedItems, List.forall₂_nil_left_iff]
    exact ⟨fun h => (Except.ok.inj h).symm, fun h => congrArg Except.ok h.symm⟩
  | cons item items ih =>
    rw [mergedItems, bind_eq_ok, List.forall₂_cons_left_iff]
    constructor
    · rintro ⟨later, hlater, h⟩
      obtain ⟨first, hfirst, heq⟩ := bind_eq_ok.mp h
      cases heq
      exact ⟨first, later, hfirst, ih.mp hlater, rfl⟩
    · rintro ⟨first, later, hfirst, hlater, rfl⟩
      exact ⟨later, ih.mpr hlater, bind_eq_ok.mpr ⟨first, hfirst, rfl⟩⟩

/-- Entries keep their keys, and their values are merged one by one. Merge keys inside a key are
left alone. -/
theorem mergedEntries_eq_ok {entries others : Entries} :
    mergedEntries entries = .ok others ↔
      List.Forall₂ (fun a b => a.1 = b.1 ∧ merged a.2 = .ok b.2) entries others := by
  induction entries generalizing others with
  | nil =>
    rw [mergedEntries, List.forall₂_nil_left_iff]
    exact ⟨fun h => (Except.ok.inj h).symm, fun h => congrArg Except.ok h.symm⟩
  | cons entry entries ih =>
    obtain ⟨key, value⟩ := entry
    rw [mergedEntries, bind_eq_ok, List.forall₂_cons_left_iff]
    constructor
    · rintro ⟨later, hlater, h⟩
      obtain ⟨first, hfirst, heq⟩ := bind_eq_ok.mp h
      cases heq
      exact ⟨(key, first), later, ⟨rfl, hfirst⟩, ih.mp hlater, rfl⟩
    · rintro ⟨⟨_, first⟩, later, ⟨rfl, hfirst⟩, hlater, rfl⟩
      exact ⟨later, ih.mpr hlater, bind_eq_ok.mpr ⟨first, hfirst, rfl⟩⟩

/-- What holds of a value as soon as it holds of the values that merging goes on with holds of every
value. For a mapping these are the values after its merge key is resolved, which is why induction on
parts does not do. -/
theorem merged_induction {P : Value → Prop}
    (mapping : ∀ entries : Entries,
      (∀ entries', entries.flatten = .ok entries' → ∀ entry ∈ entries', P entry.2) →
        P (.mapping entries))
    (sequence : ∀ items : List Value, (∀ item ∈ items, P item) → P (.sequence items))
    (tagged : ∀ tag content, P content → P (.tagged tag content))
    (scalar : ∀ v : Value, v.parts = [] → v.merged = .ok v →
      (∀ entries, v ≠ .mapping entries) → P v)
    (v : Value) : P v := by
  refine merged.induct P (fun items => ∀ item ∈ items, P item)
    (fun entries => ∀ entry ∈ entries, P entry.2) ?_ ?_ sequence tagged ?_ ?_ ?_ ?_ ?_ v
  · intro entries fault hflat
    refine mapping entries ?_
    intro entries' hflat'
    rw [hflat] at hflat'
    cases hflat'
  · intro entries entries' hflat ih
    refine mapping entries ?_
    intro entries'' hflat'
    rw [hflat] at hflat'
    cases hflat'
    exact ih
  · intro v hmapping hsequence htagged
    cases v with
    | mapping entries => exact absurd rfl (hmapping entries)
    | sequence items => exact absurd rfl (hsequence items)
    | tagged tag content => exact absurd rfl (htagged tag content)
    | _ => exact scalar _ rfl (by simp [merged]) hmapping
  · intro _ h
    exact absurd h List.not_mem_nil
  · intro item items hitems hitem x hx
    rcases List.mem_cons.mp hx with rfl | hx
    · exact hitem
    · exact hitems x hx
  · intro _ h
    exact absurd h List.not_mem_nil
  · intro key value entries hentries hvalue entry hentry
    rcases List.mem_cons.mp hentry with rfl | hentry
    · exact hvalue
    · exact hentries entry hentry

/-- Elements fail as one of them does when merged alone. Merging starts from the back, so it is the
last of those that would fail, but which one it is does not matter here. -/
theorem exists_of_mergedItems_eq_error {items : List Value} {fault : MergeFault}
    (h : mergedItems items = .error fault) : ∃ item ∈ items, item.merged = .error fault := by
  induction items with
  | nil =>
    rw [mergedItems] at h
    cases h
  | cons item items ih =>
    rw [mergedItems] at h
    rcases bind_eq_error.mp h with hlater | ⟨later, -, h⟩
    · obtain ⟨x, hx, hfault⟩ := ih hlater
      exact ⟨x, List.mem_cons_of_mem item hx, hfault⟩
    · rcases bind_eq_error.mp h with hfirst | ⟨first, -, h⟩
      · exact ⟨item, List.mem_cons_self, hfirst⟩
      · cases h

/-- Entries fail as the value of one of them does when merged alone. Keys cannot fail, as merging
does not enter them. -/
theorem exists_of_mergedEntries_eq_error {entries : Entries} {fault : MergeFault}
    (h : mergedEntries entries = .error fault) :
    ∃ entry ∈ entries, entry.2.merged = .error fault := by
  rw [mergedEntries_eq, map_eq_error] at h
  obtain ⟨value, hvalue, hfault⟩ := exists_of_mergedItems_eq_error h
  obtain ⟨entry, hentry, rfl⟩ := List.mem_map.mp hvalue
  exact ⟨entry, hentry, hfault⟩

/-! ## What merging keeps -/

/-- Merging keeps what putting values together keeps. With `Kept.resolved` this gives the same for
whole loads. -/
theorem Kept.merged {P : Value → Prop} (hP : Kept P) {v u : Value} (h : P v)
    (hmerged : v.merged = .ok u) : P u := by
  induction v using merged_induction generalizing u with
  | mapping entries ih =>
    rw [merged_mapping] at hmerged
    obtain ⟨others, hothers, rfl⟩ := map_eq_ok.mp hmerged
    obtain ⟨flat, hflat, hvalues⟩ := bind_eq_ok.mp hothers
    have hkept := hP.flatten h hflat
    have hpairs := mergedEntries_eq_ok.mp hvalues
    refine hP.values hkept (hpairs.imp fun _ _ hpair => hpair.1) ?_
    intro entry hentry
    obtain ⟨old, hold, -, hvalue⟩ := exists_left_of_forall₂ hpairs hentry
    exact ih flat hflat old hold (hP.value hkept hold) hvalue
  | sequence items ih =>
    rw [merged_sequence] at hmerged
    obtain ⟨others, hothers, rfl⟩ := map_eq_ok.mp hmerged
    refine hP.sequence ?_
    intro x hx
    obtain ⟨item, hitem, hx⟩ := exists_left_of_forall₂ (mergedItems_eq_ok.mp hothers) hx
    exact ih item hitem (hP.part h hitem) hx
  | tagged tag content ih =>
    rw [merged_tagged] at hmerged
    obtain ⟨other, hother, rfl⟩ := map_eq_ok.mp hmerged
    exact hP.content h (ih (hP.part h List.mem_cons_self) hother)
  | scalar v _ hself _ =>
    rw [hself] at hmerged
    cases hmerged
    exact h

/-! ## Values without merge keys -/

/-- Merging gets from a value to another one through values of entries, elements and what stands
under tags. Keys are not entered. -/
inductive Reached : Value → Value → Prop
  | self (v : Value) : Reached v v
  | entry {x : Value} {entries : Entries} {entry : Value × Value} (hentry : entry ∈ entries)
      (h : Reached x entry.2) : Reached x (mapping entries)
  | item {x : Value} {items : List Value} {item : Value} (hitem : item ∈ items)
      (h : Reached x item) : Reached x (sequence items)
  | content {x content : Value} {tag : Tag} (h : Reached x content) : Reached x (tagged tag content)

/-- No mapping that is reached has a merge key. -/
def MergeFree (v : Value) : Prop :=
  ∀ entries, (mapping entries).Reached v → Entries.contains mergeKey entries = false

/-- A mapping is free of merge keys when it has none itself and its values are free of them. Its
keys are not asked. -/
theorem mergeFree_mapping_iff {entries : Entries} : (mapping entries).MergeFree ↔
    Entries.contains mergeKey entries = false ∧ ∀ entry ∈ entries, entry.2.MergeFree := by
  constructor
  · exact fun h => ⟨h entries (.self _), fun _ hentry others hothers =>
      h others (.entry hentry hothers)⟩
  · rintro ⟨hown, hvalues⟩ others hothers
    cases hothers with
    | self => exact hown
    | entry hentry hothers => exact hvalues _ hentry others hothers

theorem mergeFree_sequence_iff {items : List Value} :
    (sequence items).MergeFree ↔ ∀ item ∈ items, item.MergeFree := by
  constructor
  · intro h _ hitem others hothers
    exact h others (.item hitem hothers)
  · intro h others hothers
    cases hothers with
    | item hitem hothers => exact h _ hitem others hothers

theorem mergeFree_tagged_iff {tag : Tag} {content : Value} :
    (tagged tag content).MergeFree ↔ content.MergeFree := by
  constructor
  · intro h others hothers
    exact h others (.content hothers)
  · intro h others hothers
    cases hothers with
    | content hothers => exact h others hothers

/-- Where nothing is inside, there is nothing to reach. An empty mapping has no parts either, but is
treated with the others. -/
theorem mergeFree_of_no_parts {v : Value} (hparts : v.parts = [])
    (hkind : ∀ entries, v ≠ mapping entries) : v.MergeFree := by
  cases v with
  | mapping entries => exact absurd rfl (hkind entries)
  | sequence items =>
    have hempty : items = [] := hparts
    exact mergeFree_sequence_iff.mpr fun item hitem => absurd (hempty ▸ hitem) List.not_mem_nil
  | tagged tag content => cases hparts
  | _ =>
    intro others hothers
    cases hothers

/-- Entries without a merge key are left as they are. -/
theorem flatten_of_not_contains {entries : Entries}
    (h : Entries.contains mergeKey entries = false) : entries.flatten = .ok entries := by
  rw [Entries.flatten, Entries.takeOut?_eq_none.mpr h]

/-- Where merging finds no merge key, it succeeds and changes nothing, the order of entries
included. Merge keys inside the keys of mappings may be there all the same. -/
theorem merged_of_mergeFree {v : Value} (h : v.MergeFree) : v.merged = .ok v := by
  induction v using merged_induction with
  | mapping entries ih =>
    obtain ⟨hown, hvalues⟩ := mergeFree_mapping_iff.mp h
    have hflat := flatten_of_not_contains hown
    have hmerged : mergedEntries entries = .ok entries := by
      rw [mergedEntries_eq_ok, List.forall₂_same]
      intro entry hentry
      exact ⟨rfl, ih entries hflat entry hentry (hvalues entry hentry)⟩
    rw [merged_mapping, hflat]
    exact map_eq_ok.mpr ⟨entries, hmerged, rfl⟩
  | sequence items ih =>
    have hmerged : mergedItems items = .ok items := by
      rw [mergedItems_eq_ok, List.forall₂_same]
      intro item hitem
      exact ih item hitem (mergeFree_sequence_iff.mp h item hitem)
    rw [merged_sequence, hmerged]
    rfl
  | tagged tag content ih =>
    rw [merged_tagged, ih (mergeFree_tagged_iff.mp h)]
    rfl
  | scalar v _ hself _ => exact hself

/-- A merge key that is resolved leaves the entries lighter. The key itself goes, and what was under
it adds no more than it weighed. -/
theorem weightEntries_flatten_lt {entries merged : Entries}
    (h : Entries.contains mergeKey entries = true) (hmerged : entries.flatten = .ok merged) :
    weightEntries merged < weightEntries entries := by
  unfold Entries.flatten at hmerged
  split at hmerged
  · next hnone =>
    rw [Entries.takeOut?_eq_none.mp hnone] at h
    cases h
  · next source own hfound =>
    have := Entries.weightEntries_takeOut? hfound
    have := Entries.weightEntries_takeIn hmerged
    omega

/-- Merging does not make a value heavier, and leaves it as heavy as it was only if it is free of
merge keys. -/
def Settles (v : Value) : Prop :=
  ∀ u, v.merged = .ok u → u.weight ≤ v.weight ∧ (u.weight = v.weight → v.MergeFree)

/-- Elements that settle do not become heavier, and if they stay as heavy as they were, all of them
are free of merge keys. -/
theorem weightItems_mergedItems {items others : List Value} (hitems : ∀ item ∈ items, item.Settles)
    (h : mergedItems items = .ok others) :
    weightItems others ≤ weightItems items ∧
      (weightItems others = weightItems items → ∀ item ∈ items, item.MergeFree) := by
  induction mergedItems_eq_ok.mp h with
  | nil => exact ⟨Nat.le_refl _, fun _ _ hitem => absurd hitem List.not_mem_nil⟩
  | @cons item other items others hitem hrest ih =>
    obtain ⟨hle, hfree⟩ := hitems item List.mem_cons_self other hitem
    obtain ⟨hleRest, hfreeRest⟩ := ih (fun x hx => hitems x (List.mem_cons_of_mem item hx))
      (mergedItems_eq_ok.mpr hrest)
    simp only [weightItems]
    refine ⟨by omega, ?_⟩
    intro heq x hx
    rcases List.mem_cons.mp hx with rfl | hx
    · exact hfree (by omega)
    · exact hfreeRest (by omega) x hx

/-- Entries do not become heavier if their values settle, since keys keep their weight. If they stay
as heavy as they were, all their values are free of merge keys. -/
theorem weightEntries_mergedEntries {entries others : Entries}
    (hentries : ∀ entry ∈ entries, entry.2.Settles) (h : mergedEntries entries = .ok others) :
    weightEntries others ≤ weightEntries entries ∧
      (weightEntries others = weightEntries entries → ∀ entry ∈ entries, entry.2.MergeFree) := by
  induction mergedEntries_eq_ok.mp h with
  | nil => exact ⟨Nat.le_refl _, fun _ _ hentry => absurd hentry List.not_mem_nil⟩
  | @cons entry other entries others hentry hrest ih =>
    obtain ⟨hkey, hvalue⟩ := hentry
    obtain ⟨hle, hfree⟩ := hentries entry List.mem_cons_self other.2 hvalue
    obtain ⟨hleRest, hfreeRest⟩ := ih (fun x hx => hentries x (List.mem_cons_of_mem entry hx))
      (mergedEntries_eq_ok.mpr hrest)
    rw [Entries.weightEntries_cons, Entries.weightEntries_cons, hkey]
    refine ⟨by omega, ?_⟩
    intro heq x hx
    rcases List.mem_cons.mp hx with rfl | hx
    · exact hfree (by omega)
    · exact hfreeRest (by omega) x hx

/-- Every value settles. So a merge that changes nothing had nothing to do, although a single step
might leave the order and the keys of a mapping as they were. -/
theorem settles (v : Value) : v.Settles := by
  induction v using merged_induction with
  | mapping entries ih =>
    intro u h
    rw [merged_mapping] at h
    obtain ⟨others, hothers, rfl⟩ := map_eq_ok.mp h
    obtain ⟨flat, hflat, hvalues⟩ := bind_eq_ok.mp hothers
    obtain ⟨hle, hfree⟩ := weightEntries_mergedEntries (ih flat hflat) hvalues
    simp only [weight]
    cases hkey : Entries.contains mergeKey entries with
    | true =>
      have hlt := weightEntries_flatten_lt hkey hflat
      exact ⟨by omega, fun heq => absurd heq (by omega)⟩
    | false =>
      rw [flatten_of_not_contains hkey] at hflat
      cases hflat
      exact ⟨by omega, fun heq => mergeFree_mapping_iff.mpr ⟨hkey, hfree (by omega)⟩⟩
  | sequence items ih =>
    intro u h
    rw [merged_sequence] at h
    obtain ⟨others, hothers, rfl⟩ := map_eq_ok.mp h
    obtain ⟨hle, hfree⟩ := weightItems_mergedItems ih hothers
    simp only [weight]
    exact ⟨by omega, fun heq => mergeFree_sequence_iff.mpr (hfree (by omega))⟩
  | tagged tag content ih =>
    intro u h
    rw [merged_tagged] at h
    obtain ⟨other, hother, rfl⟩ := map_eq_ok.mp h
    obtain ⟨hle, hfree⟩ := ih other hother
    simp only [weight]
    exact ⟨by omega, fun heq => mergeFree_tagged_iff.mpr (hfree (by omega))⟩
  | scalar v hparts hself hkind =>
    intro u h
    rw [hself] at h
    cases h
    exact ⟨Nat.le_refl _, fun _ => mergeFree_of_no_parts hparts hkind⟩

/-- Merging leaves exactly those values as they are that are free of merge keys. One direction
compares weights, since equal values weigh the same. -/
theorem merged_eq_self_iff {v : Value} : v.merged = .ok v ↔ v.MergeFree :=
  ⟨fun h => (settles v v h).2 rfl, merged_of_mergeFree⟩

end Value

end YamlWeave
