import Mathlib.Data.List.Induction
import YamlWeave.Proofs.Value.Distinct

/-!
# Entries laid over entries

What putting entries in one after the other comes to, read off what can be looked up afterwards. Of
several values under one key the last one counts (`get?_insertAll`), and the keys stand in the order
in which each of them comes first (`keys_insertAll`). Which entries are put in together beforehand
makes no difference (`insertAll_ofList`).

The laws of looking up ask that keys can be told apart: sameness is an equivalence on values whose
mappings hold no key twice.
-/

set_option autoImplicit false

namespace YamlWeave

namespace Value

variable {v u x : Value}

/-- Values that are the same compare alike with any other one. All three need distinct keys, without
which sameness has a direction. -/
theorem same_congr_left (hv : v.Distinct) (hu : u.Distinct) (hx : x.Distinct)
    (h : v.same u = true) : v.same x = u.same x :=
  (replaceable_of_distinct hv u hu h).2 x hx

theorem same_congr_right (hv : v.Distinct) (hu : u.Distinct) (hx : x.Distinct)
    (h : v.same u = true) : x.same v = x.same u := by
  rw [same_symm hx hv, same_symm hx hu, same_congr_left hv hu hx h]

end Value

namespace Entries

open Value

variable {entries additions others : Entries} {entry : Value × Value} {key value x : Value}

/-- The keys can be told apart: sameness is an equivalence on them. -/
def Proper (entries : Entries) : Prop :=
  ∀ entry ∈ entries, entry.1.Distinct

/-- The keys can be told apart, and no two of them are the same. -/
structure Keyed (entries : Entries) : Prop where
  distinct : Distinct entries
  proper : Proper entries

/-- The entries of a mapping with distinct keys, at every depth, can be looked up in. -/
theorem keyed_of_distinct (h : (mapping entries).Distinct) : Keyed entries :=
  ⟨h.entries, fun _ hentry => h.key hentry⟩

/-- Keys of which no two are the same differ in both directions. -/
theorem Keyed.both (h : Keyed entries) :
    entries.Pairwise fun a b => a.1.same b.1 = false ∧ b.1.same a.1 = false := by
  refine List.Pairwise.imp_of_mem (fun ha hb hne => ⟨?_, hne⟩) h.distinct
  rw [same_symm (h.proper _ ha) (h.proper _ hb), hne]

theorem proper_cons : Proper (entry :: entries) ↔ entry.1.Distinct ∧ Proper entries :=
  List.forall_mem_cons

theorem proper_append : Proper (entries ++ others) ↔ Proper entries ∧ Proper others :=
  List.forall_mem_append

/-! ## Looking up -/

@[simp] theorem get?_nil (x : Value) : get? x [] = none := rfl

/-- A key is looked for from the front, and the first one that is the same counts. -/
theorem get?_cons (x : Value) (entry : Value × Value) (entries : Entries) :
    get? x (entry :: entries) = if x.same entry.1 then some entry.2 else get? x entries := by
  rw [get?, List.find?_cons]
  cases x.same entry.1 <;> rfl

theorem get?_append (x : Value) (entries others : Entries) :
    get? x (entries ++ others) = (get? x entries).or (get? x others) := by
  rw [get?, List.find?_append, Option.map_or]
  rfl

theorem contains_eq_isSome (x : Value) (entries : Entries) :
    contains x entries = (get? x entries).isSome := by
  rw [contains, get?, Option.isSome_map, Bool.eq_iff_iff, List.any_eq_true, List.find?_isSome]

theorem contains_append (x : Value) (entries others : Entries) :
    contains x (entries ++ others) = (contains x entries || contains x others) :=
  List.any_append

/-- Whether a key occurs does not depend on order, even where it occurs twice. -/
theorem contains_reverse (x : Value) (entries : Entries) :
    contains x entries.reverse = contains x entries :=
  List.any_reverse

/-- Whether a key occurs hangs on the keys alone. -/
theorem contains_of_keys_eq (h : entries.map (·.1) = others.map (·.1)) :
    contains x entries = contains x others := by
  have hany : ∀ entries : Entries, contains x entries = (entries.map (·.1)).any x.same :=
    fun entries => by rw [contains, List.any_map]; rfl
  rw [hany, hany, h]

theorem get?_eq_none : get? x entries = none ↔ contains x entries = false := by
  rw [contains_eq_isSome, Option.isSome_eq_false_iff, Option.isNone_iff_eq_none]

/-- What is looked up among keys of which no two are the same is the one value under the key. The
key found may be spelled otherwise. -/
theorem get?_eq_some_iff (h : Keyed entries) (hx : x.Distinct) :
    get? x entries = some value ↔ ∃ key, (key, value) ∈ entries ∧ x.same key = true := by
  rw [get?, Option.map_eq_some_iff]
  constructor
  · rintro ⟨entry, hfind, rfl⟩
    exact ⟨entry.1, List.mem_of_find?_eq_some hfind, by simpa using List.find?_some hfind⟩
  · rintro ⟨key, hmem, hkey⟩
    cases hfind : entries.find? (fun entry => x.same entry.1) with
    | none => exact absurd hkey (List.find?_eq_none.mp hfind _ hmem)
    | some entry =>
      have hentry := List.mem_of_find?_eq_some hfind
      have hsame : x.same entry.1 = true := by simpa using List.find?_some hfind
      have hk := h.proper _ hmem
      have he := h.proper _ hentry
      have hforth : key.same entry.1 = true := by rwa [← same_congr_left hx hk he hkey]
      have hback : entry.1.same key = true := by rwa [same_symm he hk]
      have heq : (key, value) = entry := eq_of_same_keys h.distinct hmem hentry hforth hback
      exact ⟨entry, rfl, by rw [← heq]⟩

/-- Order does not matter for keys to be told apart, or to differ. -/
theorem Keyed.perm (h : Keyed entries) (hperm : entries.Perm others) : Keyed others := by
  have hboth := (hperm.pairwise_iff fun hpair => hpair.symm).mp h.both
  exact ⟨hboth.imp And.right, fun entry hentry => h.proper entry (hperm.mem_iff.mpr hentry)⟩

/-- The order of entries does not count where no two keys are the same. -/
theorem get?_perm (h : Keyed entries) (hperm : entries.Perm others) (hx : x.Distinct) :
    get? x others = get? x entries := by
  apply Option.ext
  intro value
  rw [get?_eq_some_iff (h.perm hperm) hx, get?_eq_some_iff h hx]
  simp only [hperm.mem_iff]

/-- In particular it makes no difference from which end a key is looked for. -/
theorem get?_reverse (h : Keyed entries) (hx : x.Distinct) :
    get? x entries.reverse = get? x entries :=
  get?_perm h (List.reverse_perm entries).symm hx

/-! ## Putting entries in -/

theorem proper_insert (h : Proper entries) (hkey : key.Distinct) (value : Value) :
    Proper (insert key value entries) := by
  intro entry hentry
  rcases (mem_insert hentry).1 with heq | ⟨old, hold, heq⟩
  · exact heq ▸ hkey
  · exact heq ▸ h old hold

/-- The value that is put in is found under its key, and nothing else changes. Under a key that is
the same it is found as well. -/
theorem get?_insert (h : Proper entries) (hkey : key.Distinct) (hx : x.Distinct) :
    get? x (insert key value entries) = if x.same key then some value else get? x entries := by
  induction entries with
  | nil => exact get?_cons x (key, value) []
  | cons entry entries ih =>
    obtain ⟨hentry, hrest⟩ := proper_cons.mp h
    by_cases hsame : key.same entry.1 = true
    · have hkeys : x.same entry.1 = x.same key := (same_congr_right hkey hentry hx hsame).symm
      rw [insert, if_pos hsame, get?_cons, get?_cons, hkeys]
      split <;> rfl
    · rw [insert, if_neg hsame, get?_cons, get?_cons, ih hrest]
      by_cases hentryKey : x.same entry.1 = true
      · have hne : ¬ x.same key = true := by
          intro hxkey
          rw [same_congr_left hx hkey hentry hxkey] at hentryKey
          exact hsame hentryKey
        rw [if_pos hentryKey, if_neg hne, if_pos hentryKey]
      · simp only [if_neg hentryKey]

theorem contains_insert (h : Proper entries) (hkey : key.Distinct) (hx : x.Distinct)
    (value : Value) :
    contains x (insert key value entries) = (x.same key || contains x entries) := by
  rw [contains_eq_isSome, contains_eq_isSome, get?_insert h hkey hx]
  cases x.same key <;> rfl

theorem insertAll_cons (entries : Entries) (entry : Value × Value) (additions : Entries) :
    insertAll entries (entry :: additions) = insertAll (insert entry.1 entry.2 entries) additions :=
  rfl

theorem insertAll_append (entries additions others : Entries) :
    insertAll entries (additions ++ others) = insertAll (insertAll entries additions) others :=
  List.foldl_append

/-- Keys can be told apart when those that were there and those that come can. -/
theorem proper_insertAll (h : Proper entries) (hadditions : Proper additions) :
    Proper (insertAll entries additions) := by
  induction additions generalizing entries with
  | nil => exact h
  | cons addition additions ih =>
    obtain ⟨haddition, hrest⟩ := proper_cons.mp hadditions
    exact ih (proper_insert h haddition addition.2) hrest

/-- Distinct entries stay so, whatever is put in and however often a key comes. -/
theorem distinct_insertAll (h : Distinct entries) (additions : Entries) :
    Distinct (insertAll entries additions) := by
  induction additions generalizing entries with
  | nil => exact h
  | cons addition additions ih => exact ih (distinct_insert h addition.1 addition.2)

/-- Entries that can be looked up in can still be after others are put in. Those need not have
different keys. -/
theorem keyed_insertAll (h : Keyed entries) (hadditions : Proper additions) :
    Keyed (insertAll entries additions) :=
  ⟨distinct_insertAll h.distinct additions, proper_insertAll h.proper hadditions⟩

/-- Entries that are put in one after the other can be looked up in, even if keys came twice. -/
theorem keyed_ofList (h : Proper entries) : Keyed (ofList entries) :=
  keyed_insertAll ⟨List.Pairwise.nil, fun _ hentry => absurd hentry List.not_mem_nil⟩ h

/-- The last value put in under a key counts, and what was there before where none is. Looking from
the back of the additions finds the last one. -/
theorem get?_insertAll (h : Proper entries) (hadditions : Proper additions) (hx : x.Distinct) :
    get? x (insertAll entries additions) = (get? x additions.reverse).or (get? x entries) := by
  induction additions generalizing entries with
  | nil => rfl
  | cons addition additions ih =>
    obtain ⟨haddition, hrest⟩ := proper_cons.mp hadditions
    rw [insertAll_cons, ih (proper_insert h haddition addition.2) hrest,
      get?_insert h haddition hx, List.reverse_cons, get?_append, get?_cons]
    cases get? x additions.reverse <;> cases x.same addition.1 <;> rfl

/-- Looking a key up in what entries come down to is looking for it from their back. -/
theorem get?_ofList (h : Proper entries) (hx : x.Distinct) :
    get? x (ofList entries) = get? x entries.reverse := by
  rw [ofList, get?_insertAll (fun _ hentry => absurd hentry List.not_mem_nil) h hx, get?_nil,
    Option.or_none]

theorem contains_ofList (h : Proper entries) (hx : x.Distinct) :
    contains x (ofList entries) = contains x entries := by
  rw [contains_eq_isSome, get?_ofList h hx, ← contains_eq_isSome, contains_reverse]

/-- The entries of all mappings together can be told apart, though they may have keys in common. -/
theorem proper_flatten {sources : List Entries} (hsources : ∀ source ∈ sources, Keyed source) :
    Proper sources.flatten := by
  intro entry hentry
  obtain ⟨source, hsource, hentry⟩ := List.mem_flatten.mp hentry
  exact (hsources source hsource).proper entry hentry

/-- The order of the entries in each mapping does not count. Only the order of the mappings does, so
going backwards through all entries is going backwards through the mappings. -/
theorem get?_flatten_reverse {sources : List Entries} (hsources : ∀ source ∈ sources, Keyed source)
    (hx : x.Distinct) : get? x sources.flatten.reverse = get? x sources.reverse.flatten := by
  induction sources with
  | nil => rfl
  | cons first rest ih =>
    obtain ⟨hfirst, hrest⟩ := List.forall_mem_cons.mp hsources
    rw [List.flatten_cons, List.reverse_append, get?_append, ih hrest, get?_reverse hfirst hx,
      List.reverse_cons, List.flatten_append, get?_append, List.flatten_singleton]

/-- Of several mappings put in one after the other, the last one with a key gives the value. This is
the precedence of files that a node lists. -/
theorem get?_ofList_flatten {earlier later : List Entries} {source : Entries}
    (hsources : ∀ other ∈ earlier ++ source :: later, Keyed other) (hx : x.Distinct)
    (hvalue : get? x source = some value) (hlater : ∀ other ∈ later, contains x other = false) :
    get? x (ofList (earlier ++ source :: later).flatten) = some value := by
  have hnone : get? x later.reverse.flatten = none := by
    rw [get?_eq_none, contains_eq_false]
    intro entry hentry
    obtain ⟨other, hother, hentry⟩ := List.mem_flatten.mp hentry
    exact contains_eq_false.mp (hlater other (List.mem_reverse.mp hother)) entry hentry
  rw [get?_ofList (proper_flatten hsources) hx, get?_flatten_reverse hsources hx,
    List.reverse_append, List.flatten_append, get?_append, List.reverse_cons, List.flatten_append,
    get?_append, hnone, List.flatten_singleton, hvalue]
  rfl

/-- Keys come behind those that are there, in the order in which each comes first. The spelling that
comes first is the one that is kept. -/
theorem keys_insertAll (entries additions : Entries) :
    (insertAll entries additions).map (·.1) = entries.map (·.1) ++
      ((additions.map (·.1)).filter fun key => !contains key entries).eraseDupsBy same := by
  induction additions generalizing entries with
  | nil => simp [insertAll]
  | cons addition additions ih =>
    rw [insertAll_cons, ih]
    by_cases hkey : contains addition.1 entries = true
    · have hcontains : ∀ key, contains key (insert addition.1 addition.2 entries) =
          contains key entries := fun _ => contains_of_keys_eq (keys_insert_of_contains hkey)
      simp [keys_insert_of_contains hkey, hcontains, hkey]
    · have hnew : contains addition.1 entries = false := Bool.eq_false_iff.mpr hkey
      have hcontains : ∀ key, contains key (entries ++ [(addition.1, addition.2)]) =
          (contains key entries || key.same addition.1) := by
        intro key
        rw [contains_append]
        simp [contains]
      simp only [insert_of_not_contains hnew, hcontains, List.map_append, List.map_cons,
        List.map_nil, hnew, Bool.not_false, List.filter_cons_of_pos, List.eraseDupsBy_cons,
        List.append_assoc, List.cons_append, List.nil_append, List.filter_filter]
      simp [Bool.and_comm]

/-- The keys of what entries come down to are theirs without the repetitions, as the library removes
them. -/
theorem keys_ofList (entries : Entries) :
    (ofList entries).map (·.1) = (entries.map (·.1)).eraseDupsBy same := by
  rw [ofList, keys_insertAll]
  simp [contains]

/-! ## Putting in together -/

/-- Of two values that are put in under keys that are the same, the second one stays, under the
first key. -/
theorem insert_insert_of_same {key' value' : Value} (h : Proper entries) (hkey : key.Distinct)
    (hkey' : key'.Distinct) (hsame : key.same key' = true) :
    insert key value (insert key' value' entries) = insert key' value entries := by
  induction entries with
  | nil => simp [insert, hsame]
  | cons entry entries ih =>
    obtain ⟨hentry, hrest⟩ := proper_cons.mp h
    have hkeys := same_congr_left hkey hkey' hentry hsame
    by_cases hold : key'.same entry.1 = true
    · simp [insert, hold, hkeys]
    · simp [insert, hold, hkeys, ih hrest]

/-- Two keys that differ are put in in either order, when one of them is there. Otherwise the order
of the two entries would depend on it. -/
theorem insert_comm {key' value' : Value} (h : Proper entries) (hkey : key.Distinct)
    (hkey' : key'.Distinct) (hne : key.same key' = false)
    (hcontains : contains key entries = true) :
    insert key value (insert key' value' entries) =
      insert key' value' (insert key value entries) := by
  induction entries with
  | nil => cases hcontains
  | cons entry entries ih =>
    obtain ⟨hentry, hrest⟩ := proper_cons.mp h
    by_cases hhere : key.same entry.1 = true
    · have hother : key'.same entry.1 = false := by
        rw [← same_congr_right hkey hentry hkey' hhere, same_symm hkey' hkey, hne]
      simp [insert, hhere, hother]
    · have hlater : contains key entries = true :=
        (Bool.or_eq_true_iff.mp hcontains).resolve_left hhere
      by_cases hother : key'.same entry.1 = true
      · simp [insert, hhere, hother]
      · simp [insert, hhere, hother, ih hrest hlater]

/-- An entry is put in before others as well as after them, when its key is there and not among
theirs. -/
theorem insertAll_insert_comm (h : Proper entries) (hkey : key.Distinct)
    (hadditions : Proper additions) (hcontains : contains key entries = true)
    (hne : contains key additions = false) :
    insert key value (insertAll entries additions) =
      insertAll (insert key value entries) additions := by
  induction additions generalizing entries with
  | nil => rfl
  | cons addition additions ih =>
    obtain ⟨haddition, hrest⟩ := proper_cons.mp hadditions
    obtain ⟨hfirst, hlater⟩ : key.same addition.1 = false ∧ contains key additions = false :=
      Bool.or_eq_false_iff.mp hne
    have hstill : contains key (insert addition.1 addition.2 entries) = true := by
      rw [contains_insert h haddition hkey, hcontains, Bool.or_true]
    rw [insertAll_cons, ih (proper_insert h haddition _) hrest hstill hlater,
      insert_comm h hkey haddition hfirst hcontains, insertAll_cons]

/-- An entry that is put in among additions is put in after them. If its key is among them, its
value replaces theirs in either way. -/
theorem insertAll_insert (h : Proper entries) (hadditions : Keyed additions)
    (hkey : key.Distinct) (value : Value) :
    insertAll entries (insert key value additions) =
      insert key value (insertAll entries additions) := by
  induction additions generalizing entries with
  | nil => rfl
  | cons addition additions ih =>
    obtain ⟨haddition, hrest⟩ := proper_cons.mp hadditions.proper
    by_cases hsame : key.same addition.1 = true
    · have hlater : contains key additions = false := by
        refine contains_eq_false.mpr fun other hother => ?_
        have hne := (List.pairwise_cons.mp hadditions.distinct).1 other hother
        rw [same_congr_left hkey haddition (hrest other hother) hsame,
          same_symm haddition (hrest other hother), hne]
      have hthere : contains key (insert addition.1 addition.2 entries) = true := by
        rw [contains_insert h haddition hkey, hsame, Bool.true_or]
      rw [insert, if_pos hsame, insertAll_cons, insertAll_cons,
        insertAll_insert_comm (proper_insert h haddition _) hkey hrest hthere hlater,
        insert_insert_of_same h hkey haddition hsame]
    · have hkeyed : Keyed additions := ⟨hadditions.distinct.tail, hrest⟩
      rw [insert, if_neg hsame, insertAll_cons, insertAll_cons,
        ih (proper_insert h haddition _) hkeyed]

/-- Entries that are put together first are put in as they would be one by one. So parts of a list
of mappings can be joined beforehand. -/
theorem insertAll_ofList (h : Proper entries) (hadditions : Proper additions) :
    insertAll entries (ofList additions) = insertAll entries additions := by
  induction additions using List.reverseRecOn with
  | nil => rfl
  | append_singleton additions addition ih =>
    obtain ⟨hfront, hlast⟩ := proper_append.mp hadditions
    have hsingle : ∀ entries : Entries, insertAll entries [addition] =
        insert addition.1 addition.2 entries := fun _ => rfl
    rw [ofList, insertAll_append, insertAll_append, hsingle, hsingle, ← ofList,
      insertAll_insert h (keyed_ofList hfront) (hlast addition List.mem_cons_self), ih hfront]

end Entries

end YamlWeave
