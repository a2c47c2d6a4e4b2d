import Mathlib.Order.Bounds.Basic
import YamlWeave.Proofs.Value.Overlay

/-!
# Entries whose keys are the same

Entries that are put in one after the other come down to one entry for each key. It has the key and
the place of the first entry whose key is the same, and the value of the last one (`Collapses`,
`collapses_ofList`). Where no two keys are the same, all entries stay (`ofList_of_distinct`).

A key is looked for by a value that can be told from others (`Value.Distinct`), as all values of
documents can: no mapping in it holds a key twice.

The parts of the law on keys are proved from what one more entry does at the end: its key is
appended where it does not occur yet (`keys_ofList_concat`).
-/

set_option autoImplicit false

namespace YamlWeave.Entries

open Value

variable {entries merged front back : Entries} {entry : Value × Value} {key value x : Value}

/-- The places of the entries whose keys are the same as a key. -/
def places (x : Value) (entries : Entries) : Set (Fin entries.length) :=
  {j | x.same entries[j].1 = true}

/-- One entry is left for each key. -/
structure Collapses (entries merged : Entries) : Prop where
  /-- The keys are those that occur. -/
  contains : ∀ x : Value, x.Distinct → (merged.contains x = true ↔ (places x entries).Nonempty)
  /-- What is left for a key has the key of its first place and the value of its last one. -/
  find? : ∀ (x : Value) (first last : Fin entries.length), x.Distinct →
    IsLeast (places x entries) first → IsGreatest (places x entries) last →
      merged.find? (fun entry => x.same entry.1) = some (entries[first].1, entries[last].2)
  /-- What is left stands in the order of the first places. -/
  order : merged.Pairwise fun a b => ∀ i j : Fin entries.length,
    IsLeast (places a.1 entries) i → IsLeast (places b.1 entries) j → i < j

/-! ## One more entry -/

/-- Putting an entry in adds its key at the end, or leaves the keys as they are. -/
theorem keys_insert : (insert key value entries).map (·.1) =
    entries.map (·.1) ++ if contains key entries then [] else [key] := by
  cases hkey : contains key entries with
  | true => rw [keys_insert_of_contains hkey, if_pos rfl, List.append_nil]
  | false => simp [insert_of_not_contains hkey]

/-- Entries are put in one after the other, so the last one is put in last. Proofs here go by
induction from the back for this reason. -/
theorem ofList_concat : ofList (entries ++ [entry]) = insert entry.1 entry.2 (ofList entries) :=
  insertAll_append [] entries [entry]

/-- One more entry adds its key at the end, unless the key occurs before. It is asked of the entries
whether it occurs, and not of what has become of them. -/
theorem keys_ofList_concat (h : Proper (entries ++ [entry])) :
    (ofList (entries ++ [entry])).map (·.1) =
      (ofList entries).map (·.1) ++ if contains entry.1 entries then [] else [entry.1] := by
  obtain ⟨hentries, hentry⟩ := proper_append.mp h
  rw [ofList_concat, keys_insert, contains_ofList hentries (hentry entry List.mem_cons_self)]

/-! ## First and last places -/

/-- The key that is kept for a key is the first one that is the same. It may be spelled otherwise
than the key that is looked for, as a float may be. -/
theorem find?_keys_ofList (h : Proper entries) (hx : x.Distinct) :
    ((ofList entries).map (·.1)).find? x.same = (entries.map (·.1)).find? x.same := by
  induction entries using List.reverseRecOn with
  | nil => rfl
  | append_singleton entries entry ih =>
    obtain ⟨hentries, hentry⟩ := proper_append.mp h
    have hentry := hentry entry List.mem_cons_self
    rw [keys_ofList_concat h, List.map_append, List.find?_append, List.find?_append, ih hentries]
    cases hcontains : contains entry.1 entries with
    | false => rfl
    | true =>
      -- The key is not appended, and it is not found at the end either: its first place counts.
      by_cases hsame : x.same entry.1 = true
      · obtain ⟨old, hold, hkey⟩ := List.any_eq_true.mp hcontains
        have hfound : ((entries.map (·.1)).find? x.same).isSome = true := by
          rw [List.find?_isSome]
          refine ⟨old.1, List.mem_map_of_mem hold, ?_⟩
          rwa [same_congr_left hx hentry (hentries old hold) hsame]
        obtain ⟨first, hfirst⟩ := Option.isSome_iff_exists.mp hfound
        rw [hfirst, Option.some_or, Option.some_or]
      · simp [hsame]

/-- Of two keys that are kept, the earlier one occurs before the other one first does. This is the
order of entries that come out, said of the entries that went in. -/
theorem pairwise_keys_ofList (h : Proper entries) :
    ((ofList entries).map (·.1)).Pairwise fun earlier later => ∃ front back,
      entries = front ++ back ∧ contains earlier front = true ∧ contains later front = false := by
  induction entries using List.reverseRecOn with
  | nil => exact List.Pairwise.nil
  | append_singleton entries entry ih =>
    obtain ⟨hentries, hentry⟩ := proper_append.mp h
    have hold := (ih hentries).imp fun {earlier later} hsplit =>
      show ∃ front back, entries ++ [entry] = front ++ back ∧ contains earlier front = true ∧
          contains later front = false by
        obtain ⟨front, back, hsplit, hboth⟩ := hsplit
        exact ⟨front, back ++ [entry], by rw [hsplit, List.append_assoc], hboth⟩
    rw [keys_ofList_concat h]
    cases hcontains : contains entry.1 entries with
    | true => simpa using hold
    | false =>
      refine List.pairwise_append.mpr ⟨hold, List.pairwise_singleton _ _, ?_⟩
      intro key hkey later hlater
      rw [List.mem_singleton.mp hlater]
      obtain ⟨kept, hkept, rfl⟩ := List.mem_map.mp hkey
      have hproper := (keyed_ofList hentries).proper kept hkept
      refine ⟨entries, [entry], rfl, ?_, hcontains⟩
      rw [← contains_ofList hentries hproper]
      exact List.any_eq_true.mpr ⟨kept, hkept, same_refl hproper⟩

theorem contains_iff_places : contains x entries = true ↔ (places x entries).Nonempty := by
  rw [contains, List.any_eq_true]
  constructor
  · rintro ⟨entry, hentry, hsame⟩
    obtain ⟨j, hj, rfl⟩ := List.getElem_of_mem hentry
    exact ⟨⟨j, hj⟩, hsame⟩
  · rintro ⟨j, hj⟩
    exact ⟨entries[j], List.getElem_mem _, hj⟩

/-- Looking for a key from the front stops at its first place. -/
theorem find?_keys_of_isLeast {first : Fin entries.length} (h : IsLeast (places x entries) first) :
    (entries.map (·.1)).find? x.same = some entries[first].1 := by
  rw [List.find?_eq_some_iff_getElem]
  refine ⟨h.1, first, by simp, by simp, fun j hj => ?_⟩
  have hlt : j < entries.length := hj.trans first.isLt
  have hne : (⟨j, hlt⟩ : Fin entries.length) ∉ places x entries := fun hplace =>
    absurd (h.2 hplace) (not_le.mpr hj)
  simpa [places] using hne

/-- Looking for a key from the back stops at the last entry for it. Entries in front of it, for this
key or another, do not matter. -/
theorem get?_reverse_of_last (hentry : x.same entry.1 = true) (hback : contains x back = false) :
    get? x (front ++ entry :: back).reverse = some entry.2 := by
  have hlater : get? x back.reverse = none := by rwa [get?_eq_none, contains_reverse]
  rw [List.reverse_append, List.reverse_cons, get?_append, get?_append, hlater, get?_cons,
    if_pos hentry]
  rfl

/-- Looking for a key from the back stops at its greatest place. This is `get?_reverse_of_last` for
entries that are told apart by their places. -/
theorem get?_reverse_of_isGreatest {last : Fin entries.length}
    (h : IsGreatest (places x entries) last) :
    get? x entries.reverse = some entries[last].2 := by
  have hback : contains x (entries.drop (last + 1)) = false := by
    refine contains_eq_false.mpr fun entry hentry => ?_
    obtain ⟨j, hj, rfl⟩ := List.getElem_of_mem hentry
    have hlt : last + 1 + j < entries.length := by
      rw [List.length_drop] at hj
      omega
    have hne : (⟨last + 1 + j, hlt⟩ : Fin entries.length) ∉ places x entries := by
      intro hplace
      have hle : last.val + 1 + j ≤ last := h.2 hplace
      omega
    simpa [places] using hne
  have hsplit : entries.take last ++ entries[last] :: entries.drop (last + 1) = entries :=
    (congrArg _ (List.drop_eq_getElem_cons last.isLt).symm).trans (List.take_append_drop _ _)
  have hlast : get? x (entries.take last ++ entries[last] :: entries.drop (last + 1)).reverse =
      some entries[last].2 := get?_reverse_of_last h.1 hback
  rwa [hsplit] at hlast

/-- A key that occurs where another one does not occur yet has the earlier first place. It turns
splitting a list in two into an order of places. -/
theorem lt_of_isLeast {y : Value} {i j : Fin entries.length} (hsplit : entries = front ++ back)
    (hx : contains x front = true) (hy : contains y front = false)
    (hi : IsLeast (places x entries) i) (hj : IsLeast (places y entries) j) : i < j := by
  subst hsplit
  obtain ⟨k, hk⟩ := contains_iff_places.mp hx
  have hlt : k.val < (front ++ back).length := by
    rw [List.length_append]
    omega
  have hplace : (⟨k, hlt⟩ : Fin (front ++ back).length) ∈ places x (front ++ back) := by
    simpa [places, List.getElem_append_left] using hk
  have hik : i.val ≤ k := hi.2 hplace
  have hfront : front.length ≤ j := by
    by_contra hlater
    rw [not_le] at hlater
    have hsame : y.same front[j.val].1 = true := by
      simpa [places, List.getElem_append_left hlater] using hj.1
    rw [contains_eq_false.mp hy _ (List.getElem_mem hlater)] at hsame
    cases hsame
  exact Fin.lt_def.mpr (lt_of_le_of_lt hik (lt_of_lt_of_le k.isLt hfront))

/-! ## The law -/

/-- Entries that are put in one after the other come down to one for each key. All that is asked is
that their keys can be compared, so this is the law for mappings whose keys were resolved. -/
theorem collapses_ofList (h : Proper entries) : Collapses entries (ofList entries) where
  contains x hx := by rw [contains_ofList h hx, contains_iff_places]
  find? x first last hx hfirst hlast := by
    have hkey := find?_keys_of_isLeast hfirst
    have hvalue := get?_reverse_of_isGreatest hlast
    rw [← find?_keys_ofList h hx, List.find?_map] at hkey
    rw [← get?_ofList h hx, get?] at hvalue
    obtain ⟨kept, hkept, hkey⟩ := Option.map_eq_some_iff.mp hkey
    have hkept : (ofList entries).find? (fun entry => x.same entry.1) = some kept := hkept
    rw [hkept, Option.map_some, Option.some_inj] at hvalue
    rw [hkept, ← hkey, ← hvalue]
  order := by
    refine (List.pairwise_map.mp (pairwise_keys_ofList h)).imp ?_
    rintro a b ⟨front, back, hsplit, ha, hb⟩ i j hi hj
    exact lt_of_isLeast hsplit ha hb hi hj

end YamlWeave.Entries
