import YamlWeave.Proofs.Value.Kept
import YamlWeave.Proofs.Value.Sameness

/-!
# Keys stay distinct

Putting entries in, appending those that are missing and taking one out lead from mappings with
distinct keys to mappings with distinct keys, and so do they at every depth (`kept_distinct`).
Putting in all entries of a mapping with distinct keys, one after the other, builds that mapping
again (`ofList_of_distinct`).

Taking an entry out moves the last entry forward. This changes which of two keys is the earlier one,
so it is here that sameness must have no direction.
-/

set_option autoImplicit false

namespace YamlWeave

namespace Entries

/-- What the keys of entries have to be for the entries to be distinct. -/
theorem distinct_iff_keys {entries : Entries} :
    Distinct entries ↔
      (entries.map (·.1)).Pairwise fun earlier later => later.same earlier = false := by
  rw [Distinct, List.pairwise_map]

theorem contains_eq_false {key : Value} {entries : Entries} :
    contains key entries = false ↔ ∀ entry ∈ entries, key.same entry.1 = false := by
  rw [contains, List.any_eq_false]
  exact forall₂_congr fun _ _ => Bool.eq_false_iff.symm

/-- A key that does not occur is appended. So new keys come in the order in which they are put
in. -/
theorem insert_of_not_contains {key value : Value} {entries : Entries}
    (h : contains key entries = false) : insert key value entries = entries ++ [(key, value)] := by
  induction entries with
  | nil => rfl
  | cons entry entries ih =>
    obtain ⟨hkey, hrest⟩ := Bool.or_eq_false_iff.mp h
    rw [insert, if_neg (Bool.eq_false_iff.mp hkey), ih hrest, List.cons_append]

/-- A key that occurs leaves the keys as they are: the first spelling of it stays, and so does its
place. -/
theorem keys_insert_of_contains {key value : Value} {entries : Entries}
    (h : contains key entries = true) :
    (insert key value entries).map (·.1) = entries.map (·.1) := by
  induction entries with
  | nil => cases h
  | cons entry entries ih =>
    by_cases hkey : key.same entry.1 = true
    · rw [insert, if_pos hkey, List.map_cons, List.map_cons]
    · have hrest : contains key entries = true := (Bool.or_eq_true_iff.mp h).resolve_left hkey
      rw [insert, if_neg hkey, List.map_cons, List.map_cons, ih hrest]

/-- A new entry comes last among distinct ones when its key does not occur. It is enough to compare
the new key with the others, in this direction. -/
theorem distinct_append_singleton {entry : Value × Value} {entries : Entries}
    (h : Distinct entries) (hnew : contains entry.1 entries = false) :
    Distinct (entries ++ [entry]) := by
  refine List.pairwise_append.mpr ⟨h, List.pairwise_singleton _ entry, ?_⟩
  intro old hold e he
  rw [List.mem_singleton.mp he]
  exact contains_eq_false.mp hnew old hold

/-- Distinct entries stay so, whatever is put in: a key that is there already gets no second
entry. -/
theorem distinct_insert {entries : Entries} (h : Distinct entries) (key value : Value) :
    Distinct (insert key value entries) := by
  cases hkey : contains key entries with
  | true => rwa [distinct_iff_keys, keys_insert_of_contains hkey, ← distinct_iff_keys]
  | false =>
    rw [insert_of_not_contains hkey]
    exact distinct_append_singleton h hkey

/-- What stands in entries after one is put in comes from them or is the new one, key and value
each. An old key may now have the new value, so both are traced separately. -/
theorem mem_insert {key value : Value} {entries : Entries} {entry : Value × Value}
    (h : entry ∈ insert key value entries) :
    (entry.1 = key ∨ ∃ old ∈ entries, entry.1 = old.1) ∧
      (entry.2 = value ∨ ∃ old ∈ entries, entry.2 = old.2) := by
  induction entries with
  | nil => exact List.mem_singleton.mp h ▸ ⟨.inl rfl, .inl rfl⟩
  | cons old entries ih =>
    by_cases hkey : key.same old.1 = true
    · rw [insert, if_pos hkey] at h
      rcases List.mem_cons.mp h with rfl | h
      · exact ⟨.inr ⟨old, List.mem_cons_self, rfl⟩, .inl rfl⟩
      · have hmem := List.mem_cons_of_mem old h
        exact ⟨.inr ⟨entry, hmem, rfl⟩, .inr ⟨entry, hmem, rfl⟩⟩
    · rw [insert, if_neg hkey] at h
      rcases List.mem_cons.mp h with rfl | h
      · exact ⟨.inr ⟨old, List.mem_cons_self, rfl⟩, .inr ⟨old, List.mem_cons_self, rfl⟩⟩
      · have hlater : ∀ {P : Value × Value → Prop}, (∃ x ∈ entries, P x) →
            ∃ x ∈ old :: entries, P x :=
          fun ⟨x, hx, hP⟩ => ⟨x, List.mem_cons_of_mem old hx, hP⟩
        exact ⟨(ih h).1.imp_right hlater, (ih h).2.imp_right hlater⟩

/-- Entries with distinct keys are put in behind those that are there. Nothing is replaced and the
order stays. Of keys that come twice, the later one would replace a value instead. -/
theorem insertAll_of_distinct {entries additions : Entries} (h : Distinct (entries ++ additions)) :
    insertAll entries additions = entries ++ additions := by
  induction additions generalizing entries with
  | nil => exact (List.append_nil entries).symm
  | cons addition additions ih =>
    have hnew : contains addition.1 entries = false := by
      refine contains_eq_false.mpr ?_
      intro entry hentry
      exact (List.pairwise_append.mp h).2.2 entry hentry addition List.mem_cons_self
    have hsplit : entries ++ addition :: additions = (entries ++ [addition]) ++ additions := by simp
    have hstep : insertAll entries (addition :: additions) =
        insertAll (entries ++ [addition]) additions := by
      rw [← insert_of_not_contains hnew]
      rfl
    rw [hstep, ih (hsplit ▸ h), hsplit]

/-- A mapping with distinct keys is built again from its entries. This is why resolving does not
change the order of a mapping in which no keys become the same. -/
theorem ofList_of_distinct {entries : Entries} (h : Distinct entries) : ofList entries = entries :=
  insertAll_of_distinct h

/-- Distinct entries stay so, whatever is taken in, since keys that are there are passed over. -/
theorem distinct_addMissing {entries : Entries} (h : Distinct entries) (additions : Entries) :
    Distinct (entries.addMissing additions) := by
  unfold addMissing
  induction additions generalizing entries with
  | nil => exact h
  | cons addition additions ih =>
    rw [List.foldl_cons]
    split
    · exact ih h
    · next hnew => exact ih (distinct_append_singleton h (Bool.eq_false_iff.mpr hnew))

/-- Entries that are taken in come as they are, key and value together, and nothing that was there
changes. So what holds of all entries on both sides holds of the outcome. -/
theorem mem_addMissing {entries additions : Entries} {entry : Value × Value}
    (h : entry ∈ entries.addMissing additions) : entry ∈ entries ∨ entry ∈ additions := by
  unfold addMissing at h
  induction additions generalizing entries with
  | nil => exact .inl h
  | cons addition additions ih =>
    rw [List.foldl_cons] at h
    rcases ih h with hold | hlater
    · split at hold
      · exact .inl hold
      · rcases List.mem_append.mp hold with hold | hnew
        · exact .inl hold
        · exact .inr (List.mem_singleton.mp hnew ▸ List.mem_cons_self)
    · exact .inr (List.mem_cons_of_mem addition hlater)

/-- Moving the last entry to the front is a change of order and nothing else. -/
theorem lastToFront_perm (entries : Entries) : (lastToFront entries).Perm entries := by
  unfold lastToFront
  cases h : entries.getLast? with
  | none => rw [List.getLast?_eq_none_iff.mp h]
  | some last =>
    obtain ⟨front, rfl⟩ := List.getLast?_eq_some_iff.mp h
    rw [List.dropLast_concat]
    exact (List.perm_append_singleton last front).symm

/-- An entry that is taken out and those that are left are all there were. The last of them may have
moved into the gap. -/
theorem perm_of_takeOut? {key source : Value} {entries left : Entries}
    (h : entries.takeOut? key = some (source, left)) :
    ∃ k, key.same k = true ∧ entries.Perm ((k, source) :: left) := by
  induction entries generalizing left with
  | nil => cases h
  | cons entry entries ih =>
    obtain ⟨k, v⟩ := entry
    unfold takeOut? at h
    split at h
    · next hkey =>
      cases h
      exact ⟨k, hkey, (lastToFront_perm entries).symm.cons _⟩
    · obtain ⟨⟨value, others⟩, hfound, heq⟩ := Option.map_eq_some_iff.mp h
      cases heq
      obtain ⟨k', hkey, hperm⟩ := ih hfound
      exact ⟨k', hkey, (hperm.cons _).trans (.swap _ _ _)⟩

/-- Nothing is taken out exactly when the key does not occur. -/
theorem takeOut?_eq_none {key : Value} {entries : Entries} :
    entries.takeOut? key = none ↔ contains key entries = false := by
  induction entries with
  | nil => exact iff_of_true rfl rfl
  | cons entry entries ih =>
    obtain ⟨k, v⟩ := entry
    have hcontains : contains key ((k, v) :: entries) = (key.same k || contains key entries) := rfl
    rw [takeOut?, hcontains]
    cases hkey : key.same k with
    | true => simp
    | false => simp [ih]

end Entries

namespace Value

open Entries

variable {entries : Entries}

/-- A mapping has distinct keys at every depth when its own keys are distinct and its keys and
values have distinct keys at every depth. A key may be a mapping, so it is asked too. -/
theorem distinct_mapping_iff : (mapping entries).Distinct ↔
    Entries.Distinct entries ∧ ∀ entry ∈ entries, entry.1.Distinct ∧ entry.2.Distinct := by
  constructor
  · intro h
    exact ⟨h.entries, fun entry hentry => ⟨h.key hentry, h.value hentry⟩⟩
  · rintro ⟨hown, hparts⟩
    refine distinct_of_parts ?_ fun others heq => mapping.inj heq ▸ hown
    intro part hpart
    obtain ⟨entry, hentry, rfl | rfl⟩ := mem_parts_mapping.mp hpart
    · exact (hparts entry hentry).1
    · exact (hparts entry hentry).2

theorem distinct_of_isScalar {v : Value} (h : v.isScalar = true) : v.Distinct :=
  distinct_of_parts (fun _ hpart => absurd (parts_of_isScalar h ▸ hpart) List.not_mem_nil)
    fun _ heq => nomatch heq ▸ h

/-- A sequence has distinct keys at every depth when its elements have. -/
theorem distinct_sequence {items : List Value} (h : ∀ item ∈ items, item.Distinct) :
    (sequence items).Distinct :=
  distinct_of_parts h fun _ heq => nomatch heq

theorem distinct_empty : (mapping []).Distinct :=
  distinct_mapping_iff.mpr ⟨List.Pairwise.nil, fun _ h => absurd h List.not_mem_nil⟩

namespace Distinct

/-- A mapping stays a mapping with distinct keys when an entry is put in whose key and value are
such values. -/
theorem insert (h : (mapping entries).Distinct) {key value : Value} (hkey : key.Distinct)
    (hvalue : value.Distinct) : (mapping (Entries.insert key value entries)).Distinct := by
  refine distinct_mapping_iff.mpr ⟨distinct_insert h.entries key value, ?_⟩
  intro entry hentry
  obtain ⟨hk | ⟨old, hold, hk⟩, hv | ⟨old', hold', hv⟩⟩ := mem_insert hentry
  · exact ⟨hk ▸ hkey, hv ▸ hvalue⟩
  · exact ⟨hk ▸ hkey, hv ▸ h.value hold'⟩
  · exact ⟨hk ▸ h.key hold, hv ▸ hvalue⟩
  · exact ⟨hk ▸ h.key hold, hv ▸ h.value hold'⟩

/-- A mapping stays one with distinct keys when it takes another one in. -/
theorem addMissing (h : (mapping entries).Distinct) {additions : Entries}
    (hadditions : (mapping additions).Distinct) :
    (mapping (entries.addMissing additions)).Distinct := by
  refine distinct_mapping_iff.mpr ⟨distinct_addMissing h.entries additions, ?_⟩
  intro entry hentry
  rcases mem_addMissing hentry with hold | hnew
  · exact ⟨h.key hold, h.value hold⟩
  · exact ⟨hadditions.key hnew, hadditions.value hnew⟩

/-- Distinct keys differ in both directions. The definition compares each key with those before it
only, and sameness of distinct keys has no direction (`same_symm`). -/
theorem both (h : (mapping entries).Distinct) :
    entries.Pairwise fun a b => a.1.same b.1 = false ∧ b.1.same a.1 = false := by
  refine List.Pairwise.imp_of_mem (fun ha hb hne => ⟨?_, hne⟩) h.entries
  rw [same_symm (h.key ha) (h.key hb), hne]

/-- Distinct keys stay distinct in any order. The direction of the comparison would matter for this,
if `both` did not remove it. -/
theorem perm (h : (mapping entries).Distinct) {others : Entries} (hperm : entries.Perm others) :
    (mapping others).Distinct := by
  have hothers := (hperm.pairwise_iff fun hpair => hpair.symm).mp h.both
  refine distinct_mapping_iff.mpr ⟨hothers.imp And.right, ?_⟩
  intro entry hentry
  have hmem := hperm.mem_iff.mpr hentry
  exact ⟨h.key hmem, h.value hmem⟩

theorem tail {entry : Value × Value} (h : (mapping (entry :: entries)).Distinct) :
    (mapping entries).Distinct := by
  obtain ⟨hown, hparts⟩ := distinct_mapping_iff.mp h
  exact distinct_mapping_iff.mpr
    ⟨hown.tail, fun other hother => hparts other (List.mem_cons_of_mem entry hother)⟩

/-- What is taken out of a mapping and what is left have distinct keys. -/
theorem takeOut? (h : (mapping entries).Distinct) {key source : Value} {left : Entries}
    (hfound : entries.takeOut? key = some (source, left)) :
    source.Distinct ∧ (mapping left).Distinct := by
  obtain ⟨k, -, hperm⟩ := perm_of_takeOut? hfound
  have hall := h.perm hperm
  exact ⟨hall.value List.mem_cons_self, hall.tail⟩

/-- Other values under the same keys leave these distinct. Merging changes values in this way. -/
theorem values (h : (mapping entries).Distinct) {others : Entries}
    (hkeys : List.Forall₂ (fun a b => a.1 = b.1) entries others)
    (hothers : ∀ entry ∈ others, entry.2.Distinct) : (mapping others).Distinct := by
  have hsame : entries.map (·.1) = others.map (·.1) := by
    rwa [← List.forall₂_eq_eq_eq, List.forall₂_map_left_iff, List.forall₂_map_right_iff]
  refine distinct_mapping_iff.mpr ⟨?_, fun entry hentry => ?_⟩
  · rw [Entries.distinct_iff_keys, ← hsame, ← Entries.distinct_iff_keys]
    exact h.entries
  · obtain ⟨old, hold, hkey⟩ := exists_left_of_forall₂ hkeys hentry
    exact ⟨hkey ▸ h.key hold, hothers entry hentry⟩

end Distinct

/-- No mapping inside a value, at any depth, has two entries of which the keys are the same. -/
def KeysDiffer (v : Value) : Prop :=
  ∀ entries, (mapping entries).Within v →
    entries.Pairwise fun a b => a.1.same b.1 = false ∧ b.1.same a.1 = false

/-- What stands inside a value with distinct keys has distinct keys. -/
theorem Distinct.within {v x : Value} (h : v.Distinct) (hx : x.Within v) : x.Distinct := by
  induction hx with
  | self => exact h
  | part hpart _ ih => exact ih (h.part hpart)

/-- The comparison in one direction is enough, as sameness has none. -/
theorem Distinct.keysDiffer {v : Value} (h : v.Distinct) : v.KeysDiffer :=
  fun _ hwithin => (h.within hwithin).both

/-- Conversely nothing is lost, so the two are the same property. One of them is easy to keep, and
the other one says what is meant. -/
theorem KeysDiffer.distinct {v : Value} (h : v.KeysDiffer) : v.Distinct :=
  fun entries hwithin => (h entries hwithin).imp And.right

/-- Whatever is put together, keys stay distinct at every depth. Each field is one way of putting
values together. -/
theorem kept_distinct : Kept Distinct where
  part := Distinct.part
  scalar := distinct_of_isScalar
  sequence := distinct_sequence
  empty := distinct_empty
  insert h hkey hvalue := h.insert hkey hvalue
  addMissing h hadditions := h.addMissing hadditions
  takeOut? h hfound := h.takeOut? hfound
  values h hkeys hothers := h.values hkeys hothers
  content h hother := by
    refine distinct_of_parts ?_ fun _ heq => nomatch heq
    intro part hpart
    exact List.mem_singleton.mp hpart ▸ hother

end Value

end YamlWeave
