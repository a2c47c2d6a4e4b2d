import YamlWeave.Proofs.Value.MergeKeys

/-!
# Mappings with the same look-ups

Two mappings that have the same value under every key are the same (`same_of_alike`): a key of the
one is a key of the other, so there are as many on both sides. Merging keeps them alike
(`alike_mergedEntries`).

There are two ways to put mappings together. Laid over one another, the last one that has a key
counts; taken in one after the other, the first one counts, and what is there before counts most.
So mappings that are laid over one another and then taken in are the same as these mappings taken in
one by one, from the last to the first (`alike_takenIn`). The order of entries differs, and so does
the spelling of keys.
-/

set_option autoImplicit false

namespace YamlWeave

open Value

namespace Entries

variable {entries others own merged merged' : Entries} {entry : Value × Value} {x v : Value}
  {sources : List Entries}

/-- Two mappings have the same value under every key, or both have none. -/
def Alike (entries others : Entries) : Prop :=
  ∀ x : Value, x.Distinct → get? x entries = get? x others

theorem Alike.symm (h : Alike entries others) : Alike others entries :=
  fun x hx => (h x hx).symm

/-- Each entry is found under its key, where no other key is the same. -/
theorem get?_of_mem (h : Keyed entries) (hmem : entry ∈ entries) :
    get? entry.1 entries = some entry.2 := by
  have hkey := h.proper entry hmem
  exact (get?_eq_some_iff h hkey).mpr ⟨entry.1, hmem, same_refl hkey⟩

theorem Keyed.sublist (h : Keyed entries) (hsub : others.Sublist entries) : Keyed others :=
  ⟨h.distinct.sublist hsub, fun entry hentry => h.proper entry (hsub.subset hentry)⟩

/-- Where the keys of a mapping occur in another one, that one has at least as many. Different keys
are found by different entries, as sameness is transitive. -/
theorem length_le_of_contains (h : Keyed entries) (h' : Keyed others)
    (hkeys : ∀ entry ∈ entries, contains entry.1 others = true) :
    entries.length ≤ others.length := by
  induction entries generalizing others with
  | nil => exact Nat.zero_le _
  | cons entry entries ih =>
    obtain ⟨hkey, hrest⟩ := List.forall_mem_cons.mp hkeys
    obtain ⟨hentry, hproper⟩ := proper_cons.mp h.proper
    obtain ⟨hdiffers, hdistinct⟩ := List.pairwise_cons.mp h.distinct
    obtain ⟨other, hother, hsame⟩ := List.any_eq_true.mp hkey
    obtain ⟨front, back, rfl⟩ := List.append_of_mem hother
    have hsub : (front ++ back).Sublist (front ++ other :: back) :=
      (List.sublist_cons_self other back).append_left front
    -- The key of a later entry occurs among the others still, when the one found here is put aside.
    have hlater : ∀ later ∈ entries, contains later.1 (front ++ back) = true := by
      intro later hmem
      have hne : later.1.same other.1 = false := by
        have hlaterKey := hproper later hmem
        rw [← same_congr_right hentry (h'.proper other hother) hlaterKey hsame,
          hdiffers later hmem]
      have hfound := hrest later hmem
      rw [contains_append] at hfound ⊢
      simpa [Entries.contains, hne] using hfound
    have hlength := ih ⟨hdistinct, hproper⟩ (h'.sublist hsub) hlater
    simp only [List.length_append, List.length_cons] at hlength ⊢
    omega

/-- Mappings with the same value under every key are the same. Sameness looks from one side only, so
the lengths have to be compared as well. -/
theorem same_of_alike (h : (mapping entries).Distinct) (h' : (mapping others).Distinct)
    (halike : Alike entries others) : (mapping entries).same (mapping others) = true := by
  have hkeyed := keyed_of_distinct h
  have hkeyed' := keyed_of_distinct h'
  have hforth : ∀ entry ∈ entries, contains entry.1 others = true := by
    intro entry hentry
    rw [contains_eq_isSome, ← halike _ (h.key hentry), get?_of_mem hkeyed hentry]
    rfl
  have hback : ∀ other ∈ others, contains other.1 entries = true := by
    intro other hother
    rw [contains_eq_isSome, halike _ (h'.key hother), get?_of_mem hkeyed' hother]
    rfl
  rw [same, Bool.and_eq_true, beq_iff_eq, sameEntries_iff]
  refine ⟨?_, fun entry hentry => ?_⟩
  · exact Nat.le_antisymm (length_le_of_contains hkeyed hkeyed' hforth)
      (length_le_of_contains hkeyed' hkeyed hback)
  · have hvalue := get?_of_mem hkeyed hentry
    rw [halike _ (h.key hentry), get?, Option.map_eq_some_iff] at hvalue
    obtain ⟨other, hfind, heq⟩ := hvalue
    refine ⟨other, hfind, ?_⟩
    rw [heq]
    exact same_refl (h.value hentry)

/-! ## Merging -/

/-- Merged entries have the merged values under their keys. This holds for every key, those that do
not occur included, so look-ups before and after correspond. -/
theorem get?_mergedEntries (h : mergedEntries entries = .ok merged) (x : Value) :
    (get? x entries = none ∧ get? x merged = none) ∨
      ∃ v u, get? x entries = some v ∧ v.merged = .ok u ∧ get? x merged = some u := by
  induction mergedEntries_eq_ok.mp h with
  | nil => exact .inl ⟨rfl, rfl⟩
  | @cons entry other entries merged hentry hrest ih =>
    obtain ⟨hkey, hvalue⟩ := hentry
    rw [get?_cons, get?_cons, ← hkey]
    by_cases hsame : x.same entry.1 = true
    · rw [if_pos hsame, if_pos hsame]
      exact .inr ⟨_, _, rfl, hvalue, rfl⟩
    · rw [if_neg hsame, if_neg hsame]
      exact ih (mergedEntries_eq_ok.mpr hrest)

/-- Entries can be merged exactly when each of their values can. -/
theorem exists_mergedEntries_iff :
    (∃ merged, mergedEntries entries = .ok merged) ↔
      ∀ entry ∈ entries, ∃ u, entry.2.merged = .ok u := by
  rw [mergedEntries_eq, exists_map_eq_ok, exists_mergedItems_iff, List.forall_mem_map]

/-- Mappings with the same look-ups can both be merged, or neither can. They may fail with different
faults, because their order may differ. -/
theorem exists_mergedEntries_of_alike (h : Keyed others) (h' : Keyed entries)
    (halike : Alike entries others) (hmerged : ∃ merged, mergedEntries entries = .ok merged) :
    ∃ merged', mergedEntries others = .ok merged' := by
  rw [exists_mergedEntries_iff] at hmerged ⊢
  intro other hother
  have hvalue := get?_of_mem h hother
  rw [← halike _ (h.proper other hother), get?_eq_some_iff h' (h.proper other hother)] at hvalue
  obtain ⟨key, hmem, -⟩ := hvalue
  exact hmerged (key, other.2) hmem

/-- Mappings with the same look-ups have the same look-ups still when both are merged. A key leads
to the same value in both, and merging makes the same of it. -/
theorem alike_mergedEntries (halike : Alike entries others)
    (h : mergedEntries entries = .ok merged) (h' : mergedEntries others = .ok merged') :
    Alike merged merged' := by
  intro x hx
  have hsame := halike x hx
  rcases get?_mergedEntries h x with ⟨hnone, hout⟩ | ⟨v, u, hv, hu, hout⟩
  · rcases get?_mergedEntries h' x with ⟨-, hout'⟩ | ⟨v', u', hv', -, -⟩
    · rw [hout, hout']
    · rw [hnone, hv'] at hsame
      cases hsame
  · rcases get?_mergedEntries h' x with ⟨hnone', -⟩ | ⟨v', u', hv', hu', hout'⟩
    · rw [hv, hnone'] at hsame
      cases hsame
    · rw [hv, hv'] at hsame
      cases hsame
      cases hu.symm.trans hu'
      rw [hout, hout']

/-! ## Two ways to put mappings together -/

/-- Of mappings that are taken in one after the other the first one counts, after what is there. -/
theorem get?_foldl_addMissing (h : Proper own) (hsources : ∀ source ∈ sources, Proper source)
    (hx : x.Distinct) :
    get? x (sources.foldl addMissing own) = (get? x own).or (get? x sources.flatten) := by
  induction sources generalizing own with
  | nil => simp
  | cons first rest ih =>
    obtain ⟨hfirst, hrest⟩ := List.forall_mem_cons.mp hsources
    rw [List.foldl_cons, ih (proper_addMissing h hfirst) hrest, get?_addMissing h hfirst hx,
      Option.or_assoc, List.flatten_cons, get?_append]

/-- Mappings laid over one another and taken in have the look-ups of these mappings taken in from
the last to the first. In the one the last mapping counts, in the other the first one, and reversing
the list makes up for it. -/
theorem alike_takenIn (h : Proper own) (hsources : ∀ source ∈ sources, Keyed source) :
    Alike (own.addMissing (ofList sources.flatten)) (sources.reverse.foldl addMissing own) := by
  intro x hx
  have hproper := proper_flatten hsources
  have hreverse : ∀ source ∈ sources.reverse, Proper source :=
    fun source hsource => (hsources source (List.mem_reverse.mp hsource)).proper
  rw [get?_addMissing h (keyed_ofList hproper).proper hx, get?_ofList hproper hx,
    get?_flatten_reverse hsources hx, get?_foldl_addMissing h hreverse hx]

/-! ## Under a merge key -/

variable {front back : Entries} {source : Value}

/-- Taking the merge key out leaves what stands before it, and then what stands behind it with the
last entry first. -/
theorem takeOut?_append (h : contains mergeKey front = false) :
    takeOut? mergeKey (front ++ (mergeKey, source) :: back) =
      some (source, front ++ lastToFront back) := by
  induction front with
  | nil =>
    have hself : mergeKey.same mergeKey = true := same_refl distinct_mergeKey
    simp [takeOut?, hself]
  | cons entry front ih =>
    obtain ⟨hentry, hrest⟩ := Bool.or_eq_false_iff.mp h
    simp [takeOut?, hentry, ih hrest]

end Entries

namespace Value

open Entries

/-- A mapping with this value under its merge key, among other entries. -/
def takingIn (front back : Entries) (source : Value) : Value :=
  .mapping (front ++ (.mergeKey, source) :: back)

/-- Mappings laid over one another. -/
def overlaid (sources : List Entries) : Value :=
  .mapping (ofList sources.flatten)

/-- A list of mappings, from the last to the first. -/
def backwards (sources : List Entries) : Value :=
  .sequence (sources.reverse.map .mapping)

variable {front back flat : Entries} {sources : List Entries} {source : Value}

/-- The other keys of a mapping with a merge key are distinct, and none of them is the merge key. So
they are own entries, whatever is taken in. -/
theorem Distinct.takingIn (h : (takingIn front back source).Distinct) :
    contains mergeKey (front ++ back) = false ∧ Keyed (front ++ back) := by
  have hperm : (front ++ (mergeKey, source) :: back).Perm ((mergeKey, source) :: (front ++ back)) :=
    List.perm_middle
  have hall := (keyed_of_distinct h).perm hperm
  refine ⟨contains_eq_false.mpr fun entry hentry => ?_, hall.sublist (List.sublist_cons_self ..)⟩
  exact ((List.pairwise_cons.mp hall.both).1 entry hentry).1

/-- What is taken in comes behind the other entries, of which one has moved. The values of all of
them are merged afterwards. -/
theorem merged_takingIn (h : (takingIn front back source).Distinct)
    (htakeIn : (front ++ lastToFront back).takeIn source = .ok flat) :
    (mapping flat).Distinct ∧
      (takingIn front back source).merged = mapping <$> mergedEntries flat := by
  have hnone := h.takingIn.1
  rw [contains_append, Bool.or_eq_false_iff] at hnone
  have hflat : Entries.flatten (front ++ (mergeKey, source) :: back) = .ok flat := by
    rw [Entries.flatten, takeOut?_append hnone.1]
    exact htakeIn
  refine ⟨kept_distinct.flatten h hflat, ?_⟩
  rw [takingIn, merged_mapping, hflat]
  rfl

/-- A mapping that takes in several ones, laid over one another, is merged as the mapping is that
takes them in one by one, from the last to the first. Its own entries are found in it first, and
then those of the last mapping that has their key. The two outcomes have different orders of
entries, which sameness disregards. -/
theorem merged_takenIn (h : (takingIn front back (overlaid sources)).Distinct)
    (h' : (takingIn front back (backwards sources)).Distinct)
    (hsources : ∀ source ∈ sources, Keyed source) :
    (∃ fault fault', (takingIn front back (overlaid sources)).merged = .error fault ∧
      (takingIn front back (backwards sources)).merged = .error fault') ∨
    ∃ merged merged' : Entries,
      (takingIn front back (overlaid sources)).merged = .ok (mapping merged) ∧
      (takingIn front back (backwards sources)).merged = .ok (mapping merged') ∧
      (mapping merged).same (mapping merged') = true ∧
      ∀ x v, x.Distinct → (get? x (front ++ back)).or (get? x (ofList sources.flatten)) = some v →
        ∃ u, v.merged = .ok u ∧ get? x merged = some u ∧ get? x merged' = some u := by
  have hothers := h.takingIn.2
  have hperm : (front ++ back).Perm (front ++ lastToFront back) :=
    (lastToFront_perm back).symm.append_left front
  have hown := hothers.perm hperm
  have hitems : (front ++ lastToFront back).takeIn (backwards sources) =
      .ok (sources.reverse.foldl addMissing (front ++ lastToFront back)) := by
    refine takeInAll_eq_ok.mpr ⟨fun item hitem => ?_, ?_⟩
    · obtain ⟨entries, -, rfl⟩ := List.mem_map.mp hitem
      rfl
    · rw [List.map_map]
      exact congrArg _ (List.map_id _).symm
  obtain ⟨hflat, hmerged⟩ := merged_takingIn h rfl
  obtain ⟨hflat', hmerged'⟩ := merged_takingIn h' hitems
  have halike := alike_takenIn hown.proper hsources
  have hkeyed := keyed_of_distinct hflat
  have hkeyed' := keyed_of_distinct hflat'
  rw [hmerged, hmerged']
  cases hout : mergedEntries ((front ++ lastToFront back).addMissing (ofList sources.flatten)) with
  | error fault =>
    cases hout' : mergedEntries (sources.reverse.foldl addMissing (front ++ lastToFront back)) with
    | error fault' => exact .inl ⟨fault, fault', rfl, rfl⟩
    | ok others' =>
      obtain ⟨others, hothers⟩ :=
        exists_mergedEntries_of_alike hkeyed hkeyed' halike.symm ⟨_, hout'⟩
      cases hout.symm.trans hothers
  | ok others =>
    obtain ⟨others', hout'⟩ := exists_mergedEntries_of_alike hkeyed' hkeyed halike ⟨_, hout⟩
    rw [hout']
    have hothersAlike := alike_mergedEntries halike hout hout'
    refine .inr ⟨others, others', rfl, rfl, ?_, ?_⟩
    · apply same_of_alike _ _ hothersAlike
      · exact kept_distinct.merged h (hmerged.trans (congrArg (mapping <$> ·) hout))
      · exact kept_distinct.merged h' (hmerged'.trans (congrArg (mapping <$> ·) hout'))
    · intro x v hx hvalue
      have hproper := (keyed_ofList (proper_flatten hsources)).proper
      rw [← get?_perm hothers hperm hx, ← get?_addMissing hown.proper hproper hx] at hvalue
      rcases get?_mergedEntries hout x with ⟨hnone, -⟩ | ⟨v', u, hv', hu, hfound⟩
      · cases hnone.symm.trans hvalue
      · cases hv'.symm.trans hvalue
        exact ⟨u, hu, hfound, hothersAlike x hx ▸ hfound⟩

end Value

end YamlWeave
