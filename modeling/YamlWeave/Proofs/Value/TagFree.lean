import YamlWeave.Proofs.Value.Distinct
import YamlWeave.Proofs.Value.Merging

/-!
# Values without tags

A value is free of tags when no tag stands inside it, at any depth, in its keys either. Freedom from
tags is kept when values are put together (`kept_tagFree`), and a value that has it is never refused
by merging for a tag (`aboutTag_of_merged_eq_error`).
-/

set_option autoImplicit false

namespace YamlWeave

/-- Whether a value under a merge key is refused because it has a tag. -/
def MergeFault.aboutTag : MergeFault → Bool
  | .tagged | .taggedElement => true
  | .scalar | .scalarElement | .sequenceElement => false

namespace Value

/-- No tag stands inside a value, at any depth. -/
def TagFree (v : Value) : Prop :=
  ∀ tag content, ¬ (tagged tag content).Within v

/-- Where no tag stands inside a value, none stands inside its parts. -/
theorem TagFree.part {v part : Value} (h : v.TagFree) (hpart : part ∈ v.parts) : part.TagFree :=
  fun tag content hwithin => h tag content (.part hpart hwithin)

/-- A value with a tag has one inside, for it stands inside itself. -/
theorem not_tagFree_tagged (tag : Tag) (content : Value) : ¬ (tagged tag content).TagFree :=
  fun h => h tag content (.self _)

/-- A value is free of tags when it has none itself and its parts are free of them. -/
theorem tagFree_of_parts {v : Value} (htag : v.isTagged = false)
    (hparts : ∀ part ∈ v.parts, part.TagFree) : v.TagFree := by
  intro tag content hwithin
  cases hwithin with
  | self => cases htag
  | part hpart hx => exact hparts _ hpart tag content hx

theorem tagFree_mapping_iff {entries : Entries} :
    (mapping entries).TagFree ↔ ∀ entry ∈ entries, entry.1.TagFree ∧ entry.2.TagFree := by
  constructor
  · intro h entry hentry
    exact ⟨h.part (mem_parts_mapping.mpr ⟨entry, hentry, .inl rfl⟩),
      h.part (mem_parts_mapping.mpr ⟨entry, hentry, .inr rfl⟩)⟩
  · intro h
    refine tagFree_of_parts rfl ?_
    intro part hpart
    obtain ⟨entry, hentry, rfl | rfl⟩ := mem_parts_mapping.mp hpart
    · exact (h entry hentry).1
    · exact (h entry hentry).2

/-- Whatever is put together, values stay free of tags: no way of putting values together adds
one. -/
theorem kept_tagFree : Kept TagFree where
  part := TagFree.part
  scalar h := fun _ _ => not_within_of_isScalar h
  sequence h := tagFree_of_parts rfl h
  empty := tagFree_mapping_iff.mpr fun _ hentry => absurd hentry List.not_mem_nil
  insert h hkey hvalue := by
    rw [tagFree_mapping_iff] at h ⊢
    intro entry hentry
    obtain ⟨hk | ⟨old, hold, hk⟩, hv | ⟨old', hold', hv⟩⟩ := Entries.mem_insert hentry
    · exact ⟨hk ▸ hkey, hv ▸ hvalue⟩
    · exact ⟨hk ▸ hkey, hv ▸ (h old' hold').2⟩
    · exact ⟨hk ▸ (h old hold).1, hv ▸ hvalue⟩
    · exact ⟨hk ▸ (h old hold).1, hv ▸ (h old' hold').2⟩
  addMissing h hadditions := by
    rw [tagFree_mapping_iff] at h hadditions ⊢
    intro entry hentry
    exact (Entries.mem_addMissing hentry).elim (h entry) (hadditions entry)
  takeOut? h hfound := by
    obtain ⟨k, -, hperm⟩ := Entries.perm_of_takeOut? hfound
    rw [tagFree_mapping_iff] at h ⊢
    refine ⟨(h _ (hperm.mem_iff.mpr List.mem_cons_self)).2, fun entry hentry => ?_⟩
    exact h entry (hperm.mem_iff.mpr (List.mem_cons_of_mem _ hentry))
  values h hkeys hothers := by
    rw [tagFree_mapping_iff] at h ⊢
    intro entry hentry
    obtain ⟨old, hold, hkey⟩ := exists_left_of_forall₂ hkeys hentry
    exact ⟨hkey ▸ (h old hold).1, hothers entry hentry⟩
  content h := absurd h (not_tagFree_tagged _ _)

/-! ## Merging -/

/-- Elements without tags are refused for being no mappings, and for nothing about tags. -/
theorem aboutTag_of_takeInAll_eq_error {entries : Entries} {items : List Value}
    (h : ∀ item ∈ items, item.TagFree) {fault : MergeFault}
    (hfault : entries.takeInAll items = .error fault) : fault.aboutTag = false := by
  induction items generalizing entries with
  | nil => cases hfault
  | cons item items ih =>
    cases item with
    | mapping additions => exact ih (fun x hx => h x (List.mem_cons_of_mem _ hx)) hfault
    | tagged tag content => exact absurd (h _ List.mem_cons_self) (not_tagFree_tagged tag content)
    | _ =>
      cases hfault
      rfl

/-- What stands under the merge key of a mapping without tags is refused, if it is, for being a
scalar or for an element of it that is no mapping, and for nothing about tags. -/
theorem aboutTag_of_flatten_eq_error {entries : Entries} (h : (mapping entries).TagFree)
    {fault : MergeFault} (hfault : entries.flatten = .error fault) : fault.aboutTag = false := by
  unfold Entries.flatten at hfault
  split at hfault
  · cases hfault
  · next source own hfound =>
    obtain ⟨hsource, -⟩ := kept_tagFree.takeOut? h hfound
    cases source with
    | mapping additions => cases hfault
    | sequence items => exact aboutTag_of_takeInAll_eq_error (fun _ => hsource.part) hfault
    | tagged tag content => exact absurd hsource (not_tagFree_tagged tag content)
    | _ =>
      cases hfault
      rfl

/-- Where no tag stands, merging finds no fault with a tag. Values that are taken in have none
either, since they stood inside. -/
theorem aboutTag_of_merged_eq_error {v : Value} (h : v.TagFree) {fault : MergeFault}
    (hfault : v.merged = .error fault) : fault.aboutTag = false := by
  induction v using merged_induction with
  | mapping entries ih =>
    rw [merged_mapping, map_eq_error] at hfault
    rcases bind_eq_error.mp hfault with hflat | ⟨flat, hflat, hvalues⟩
    · exact aboutTag_of_flatten_eq_error h hflat
    · obtain ⟨entry, hentry, hvalue⟩ := exists_of_mergedEntries_eq_error hvalues
      have hfree := kept_tagFree.value (kept_tagFree.flatten h hflat) hentry
      exact ih flat hflat entry hentry hfree hvalue
  | sequence items ih =>
    rw [merged_sequence, map_eq_error] at hfault
    obtain ⟨item, hitem, hitemFault⟩ := exists_of_mergedItems_eq_error hfault
    exact ih item hitem (h.part hitem) hitemFault
  | tagged tag content _ => exact absurd h (not_tagFree_tagged tag content)
  | scalar v _ hself _ =>
    rw [hself] at hfault
    cases hfault

end Value

end YamlWeave
