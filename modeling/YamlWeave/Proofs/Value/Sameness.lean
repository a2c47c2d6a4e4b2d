import Mathlib.Data.List.Find
import Mathlib.Data.List.Forall2
import Mathlib.Data.List.Nodup
import Mathlib.Data.List.Pairwise
import Mathlib.Data.List.Perm.Subperm
import YamlWeave.Proofs.Value.Parts

/-!
# Equality and sameness of values

Equality, order of entries and spelling of keys included, can be decided (`Value.equal_iff`).
Statements about what single documents hold are checked by it. Sameness, by which keys are compared,
is coarser.

**Sameness is an equivalence.** `Value.same` compares mappings by looking every entry of one up in
the other, from one side only. It is an equivalence all the same, on values whose mappings hold no
key twice (`Value.Distinct`). For such mappings of equal length the look-ups pair the entries off
(`Pairing`), so the comparison has no direction.

With keys that occur twice this fails, so every law here asks for distinct keys.
-/

set_option autoImplicit false

namespace YamlWeave

/-! ## Equality -/

namespace Value

mutual

/-- Whether two values are equal. -/
def equal : Value → Value → Bool
  | .null, .null => true
  | .bool b, .bool c => b == c
  | .number m, .number n => m == n
  | .string s, .string t => s == t
  | .sequence items, .sequence others => equalItems items others
  | .mapping entries, .mapping others => equalEntries entries others
  | .tagged tag content, .tagged other otherContent => tag == other && equal content otherContent
  | _, _ => false
termination_by structural value => value

/-- Whether two lists of values are equal. -/
def equalItems : List Value → List Value → Bool
  | [], [] => true
  | item :: items, other :: others => equal item other && equalItems items others
  | _, _ => false
termination_by structural items => items

/-- Whether two lists of entries are equal. -/
def equalEntries : List (Value × Value) → List (Value × Value) → Bool
  | [], [] => true
  | (key, value) :: entries, (other, otherValue) :: others =>
    equal key other && equal value otherValue && equalEntries entries others
  | _, _ => false
termination_by structural entries => entries

end

mutual

/-- Comparing values node by node, as Lean's equality does, decides equality. The recursion is
structural, and the kernel can evaluate comparisons of whole documents. -/
theorem equal_iff : ∀ v w : Value, v.equal w = true ↔ v = w
  | .null, w => by cases w <;> simp [equal]
  | .bool b, w => by cases w <;> simp [equal]
  | .number n, w => by cases w <;> simp [equal]
  | .string s, w => by cases w <;> simp [equal]
  | .sequence items, w => by
    cases w with
    | sequence others => simp [equal, equalItems_iff items others]
    | _ => simp [equal]
  | .mapping entries, w => by
    cases w with
    | mapping others => simp [equal, equalEntries_iff entries others]
    | _ => simp [equal]
  | .tagged tag content, w => by
    cases w with
    | tagged other otherContent => simp [equal, equal_iff content otherContent]
    | _ => simp [equal]
termination_by structural v => v

theorem equalItems_iff : ∀ items others : List Value,
    equalItems items others = true ↔ items = others
  | [], others => by cases others <;> simp [equalItems]
  | item :: items, others => by
    cases others with
    | nil => simp [equalItems]
    | cons other others => simp [equalItems, equal_iff item other, equalItems_iff items others]
termination_by structural items => items

theorem equalEntries_iff :
    ∀ entries others : List (Value × Value), equalEntries entries others = true ↔ entries = others
  | [], others => by cases others <;> simp [equalEntries]
  | (key, value) :: entries, others => by
    cases others with
    | nil => simp [equalEntries]
    | cons other others =>
      obtain ⟨otherKey, otherValue⟩ := other
      simp [equalEntries, equal_iff key otherKey, equal_iff value otherValue,
        equalEntries_iff entries others]
termination_by structural entries => entries

end

instance : DecidableEq Value := fun v w => decidable_of_iff (v.equal w = true) (equal_iff v w)

end Value

/-! ## Sameness -/

/-- No key is the same as a key before it. -/
def Entries.Distinct (entries : Entries) : Prop :=
  entries.Pairwise fun earlier later => later.1.same earlier.1 = false

/-- Floating-point numbers that are the same can take each other's place. Zeros of either sign are
the same without being equal, so this does not come from equality. -/
theorem Double.same_replace {x y : Double} (h : x.same y = true) :
    y.same x = true ∧ ∀ z : Double, x.same z = y.same z := by
  cases x with
  | nan => cases y <;> first | exact ⟨rfl, fun _ => rfl⟩ | cases h
  | infinite s =>
    cases y with
    | infinite t =>
      have hst : s = t := eq_of_beq h
      subst hst
      exact ⟨h, fun _ => rfl⟩
    | _ => cases h
  | finite s m e =>
    cases y with
    | finite t n f =>
      simp only [same, Bool.and_eq_true, Bool.or_eq_true, beq_iff_eq] at h
      obtain ⟨⟨rfl, rfl⟩, hsign⟩ := h
      rcases hsign with rfl | rfl
      · exact ⟨by simp [same], fun _ => rfl⟩
      · -- The sign of a zero does not count.
        refine ⟨by simp [same], ?_⟩
        intro z
        cases z with
        | finite u k g => simp [same]
        | _ => rfl
    | _ => cases h

/-- Numbers that are the same can take each other's place. A whole number is never the same as a
floating-point number. -/
theorem Number.same_replace {m n : Number} (h : m.same n = true) :
    n.same m = true ∧ ∀ k : Number, m.same k = n.same k := by
  cases m with
  | int i =>
    cases n with
    | int j =>
      have hij : i = j := eq_of_beq h
      subst hij
      exact ⟨h, fun _ => rfl⟩
    | float y => cases h
  | float x =>
    cases n with
    | int j => cases h
    | float y =>
      obtain ⟨hback, hreplace⟩ := Double.same_replace h
      refine ⟨hback, ?_⟩
      intro k
      cases k with
      | int l => rfl
      | float z => exact hreplace z

namespace Value

/-- No mapping inside holds a key twice, at any depth. -/
def Distinct (v : Value) : Prop :=
  ∀ entries, (mapping entries).Within v → Entries.Distinct entries

/-- What stands inside a value with distinct keys has distinct keys. -/
theorem Distinct.part {v part : Value} (h : v.Distinct) (hpart : part ∈ v.parts) : part.Distinct :=
  fun entries hwithin => h entries (.part hpart hwithin)

theorem Distinct.key {entries : Entries} {entry : Value × Value} (h : (mapping entries).Distinct)
    (hmem : entry ∈ entries) : entry.1.Distinct :=
  h.part (mem_parts_mapping.mpr ⟨entry, hmem, .inl rfl⟩)

theorem Distinct.value {entries : Entries} {entry : Value × Value} (h : (mapping entries).Distinct)
    (hmem : entry ∈ entries) : entry.2.Distinct :=
  h.part (mem_parts_mapping.mpr ⟨entry, hmem, .inr rfl⟩)

theorem Distinct.entries {entries : Entries} (h : (mapping entries).Distinct) :
    Entries.Distinct entries :=
  h entries (.self _)

/-- Keys are distinct inside a value when they are in its parts, and in itself if it is a
mapping. -/
theorem distinct_of_parts {v : Value} (hparts : ∀ part ∈ v.parts, part.Distinct)
    (hown : ∀ entries, v = mapping entries → Entries.Distinct entries) : v.Distinct := by
  intro entries hwithin
  cases hwithin with
  | self => exact hown entries rfl
  | part hpart hx => exact hparts _ hpart entries hx

/-! ## Comparing part by part -/

theorem sameItems_iff {items others : List Value} :
    sameItems items others = true ↔ List.Forall₂ (fun a b => a.same b = true) items others := by
  induction items generalizing others with
  | nil => cases others <;> simp [sameItems]
  | cons item items ih => cases others <;> simp [sameItems, ih]

/-- Among others, the entry under the same key is this one, and its value is the same. -/
def Finds (others : Entries) (entry other : Value × Value) : Prop :=
  others.find? (fun other => entry.1.same other.1) = some other ∧ entry.2.same other.2 = true

/-- Mappings are compared by looking each entry of the one up in the other, and comparing the
values. -/
theorem sameEntries_iff {entries others : Entries} :
    sameEntries entries others = true ↔ ∀ entry ∈ entries, ∃ other, Finds others entry other := by
  induction entries with
  | nil => simp [sameEntries]
  | cons entry entries ih =>
    obtain ⟨key, value⟩ := entry
    rw [sameEntries, Bool.and_eq_true, ih, List.forall_mem_cons]
    refine and_congr_left ?_
    intro _
    cases hfind : others.find? (fun other => key.same other.1) with
    | none => simp [Finds, hfind]
    | some other => simp [Finds, hfind]

theorem Finds.mem {others : Entries} {entry other : Value × Value} (h : Finds others entry other) :
    other ∈ others :=
  List.mem_of_find?_eq_some h.1

theorem Finds.key {others : Entries} {entry other : Value × Value} (h : Finds others entry other) :
    entry.1.same other.1 = true := by
  have := List.find?_some h.1
  exact this

/-- Among distinct entries, looking the key of an entry up finds this entry. That the key is the
same as itself has to be given, as it is not known yet (`same_refl`). -/
theorem find?_key_of_mem {entries : Entries} (h : Entries.Distinct entries)
    {entry : Value × Value} (hentry : entry ∈ entries) (hself : entry.1.same entry.1 = true) :
    entries.find? (fun other => entry.1.same other.1) = some entry := by
  obtain ⟨front, back, hsplit⟩ := List.append_of_mem hentry
  refine List.find?_eq_some_iff_append.mpr ⟨hself, front, back, hsplit, fun other hother => ?_⟩
  have hpair := List.pairwise_append.mp (hsplit ▸ h)
  rw [hpair.2.2 other hother entry List.mem_cons_self]
  rfl

/-- A value is the same as itself. With a key twice this fails: the look-up finds the first of the
two entries, whose value may be another one. -/
theorem same_refl {v : Value} (h : v.Distinct) : v.same v = true := by
  induction v using parts_induction with
  | step v ih =>
    cases v with
    | sequence items =>
      rw [same, sameItems_iff, List.forall₂_same]
      intro item hitem
      exact ih item hitem (h.part hitem)
    | mapping entries =>
      rw [same, Bool.and_eq_true, sameEntries_iff]
      refine ⟨beq_self_eq_true _, fun entry hentry => ⟨entry, ?_, ?_⟩⟩
      · have hself := ih entry.1 (mem_parts_mapping.mpr ⟨entry, hentry, .inl rfl⟩) (h.key hentry)
        exact find?_key_of_mem h.entries hentry hself
      · exact ih entry.2 (mem_parts_mapping.mpr ⟨entry, hentry, .inr rfl⟩) (h.value hentry)
    | tagged tag content =>
      rw [same, Bool.and_eq_true]
      exact ⟨beq_self_eq_true tag, ih content List.mem_cons_self (h.part List.mem_cons_self)⟩
    | number n =>
      cases n with
      | int i => exact beq_self_eq_true i
      | float x => cases x <;> simp [same, Number.same, Double.same]
    | _ => simp [same]

/-! ## Both directions -/

/-- Values that are the same as this one can take its place in every comparison. -/
def Replaceable (v : Value) : Prop :=
  ∀ u : Value, u.Distinct → v.same u = true →
    u.same v = true ∧ ∀ x : Value, x.Distinct → v.same x = u.same x

/-- Two mappings of which the first one finds all its entries in the second one. The parts of the
first one are replaceable. -/
structure Pairing (entries others : Entries) : Prop where
  length : entries.length = others.length
  distinct : (mapping entries).Distinct
  distinct' : (mapping others).Distinct
  replaceable : ∀ part ∈ (mapping entries).parts, part.Replaceable
  finds : ∀ entry ∈ entries, ∃ other, Finds others entry other

/-- Entries whose keys are the same in both directions are one entry. Of two entries the later one
is compared with the earlier one, and it is not known which one is later. -/
theorem eq_of_same_keys {entries : Entries} (h : Entries.Distinct entries) {a b : Value × Value}
    (ha : a ∈ entries) (hb : b ∈ entries) (hab : a.1.same b.1 = true) (hba : b.1.same a.1 = true) :
    a = b := by
  have hpairs : entries.Pairwise fun x y => ¬ (x.1.same y.1 = true ∧ y.1.same x.1 = true) := by
    refine h.imp ?_
    intro a b hne hboth
    rw [hne] at hboth
    cases hboth.2
  have : Std.Symm fun x y : Value × Value => ¬ (x.1.same y.1 = true ∧ y.1.same x.1 = true) :=
    ⟨fun _ _ hne hboth => hne ⟨hboth.2, hboth.1⟩⟩
  by_contra hne
  exact hpairs.forall ha hb hne ⟨hab, hba⟩

namespace Pairing

variable {entries others : Entries} {entry other : Value × Value}

/-- The key of an entry can be exchanged in comparisons. -/
theorem key (h : Pairing entries others) (hmem : entry ∈ entries) : entry.1.Replaceable :=
  h.replaceable _ (mem_parts_mapping.mpr ⟨entry, hmem, .inl rfl⟩)

theorem value (h : Pairing entries others) (hmem : entry ∈ entries) : entry.2.Replaceable :=
  h.replaceable _ (mem_parts_mapping.mpr ⟨entry, hmem, .inr rfl⟩)

/-- An entry is found by one entry only. Two that find it have keys that are the same, by way of the
key found. -/
theorem eq_of_finds (h : Pairing entries others) {a b : Value × Value} (ha : a ∈ entries)
    (hb : b ∈ entries) (hfa : Finds others a other) (hfb : Finds others b other) : a = b := by
  have hother := h.distinct'.key hfa.mem
  obtain ⟨hback, hreplace⟩ := h.key ha _ hother hfa.key
  obtain ⟨hback', hreplace'⟩ := h.key hb _ hother hfb.key
  refine eq_of_same_keys h.distinct.entries ha hb ?_ ?_
  · rw [hreplace _ (h.distinct.key hb), hback']
  · rw [hreplace' _ (h.distinct.key ha), hback]

/-- Every entry is found, because there are as many on both sides. The look-ups are injective, so
they leave none out. -/
theorem exists_finds (h : Pairing entries others) (hmem : other ∈ others) :
    ∃ entry ∈ entries, Finds others entry other := by
  let found (entry : Value × Value) : Value × Value :=
    (others.find? fun other => entry.1.same other.1).getD entry
  have hfound : ∀ entry ∈ entries, Finds others entry (found entry) := by
    intro entry hentry
    obtain ⟨other, hother⟩ := h.finds entry hentry
    have : found entry = other := by simp only [found, hother.1, Option.getD_some]
    exact this ▸ hother
  have hnodup : entries.Nodup := by
    refine List.Pairwise.imp_of_mem ?_ h.distinct.entries
    intro a b ha _ hne heq
    rw [← heq, same_refl (h.distinct.key ha)] at hne
    cases hne
  have hfoundNodup : (entries.map found).Nodup :=
    hnodup.map_on fun a ha b hb heq => h.eq_of_finds ha hb (hfound a ha) (heq ▸ hfound b hb)
  have hsub : entries.map found ⊆ others := by
    intro x hx
    obtain ⟨entry, hentry, rfl⟩ := List.mem_map.mp hx
    exact (hfound entry hentry).mem
  have hperm : (entries.map found).Perm others := by
    refine (List.subperm_of_subset hfoundNodup hsub).perm_of_length_le ?_
    rw [List.length_map, h.length]
  obtain ⟨entry, hentry, rfl⟩ := List.mem_map.mp (hperm.mem_iff.mpr hmem)
  exact ⟨entry, hentry, hfound entry hentry⟩

/-- What finds an entry is found by it. This is the step that makes a comparison from one side one
from both. -/
theorem finds_symm (h : Pairing entries others) (hmem : entry ∈ entries)
    (hfinds : Finds others entry other) : Finds entries other entry := by
  have hother := h.distinct'.key hfinds.mem
  obtain ⟨hback, hreplace⟩ := h.key hmem _ hother hfinds.key
  refine ⟨?_, (h.value hmem _ (h.distinct'.value hfinds.mem) hfinds.2).1⟩
  cases hfirst : entries.find? (fun e => other.1.same e.1) with
  | none => exact absurd hback (List.find?_eq_none.mp hfirst entry hmem)
  | some first =>
    have hfirstMem := List.mem_of_find?_eq_some hfirst
    have hfirstKey := h.distinct.key hfirstMem
    have hsame : entry.1.same first.1 = true := by
      have hback := List.find?_some hfirst
      rw [hreplace _ hfirstKey, hback]
    have := eq_of_same_keys h.distinct.entries hmem hfirstMem hsame
      (h.key hmem _ hfirstKey hsame).1
    rw [this]

/-- What an entry finds elsewhere, the one that it finds here finds there as well. -/
theorem finds_congr (h : Pairing entries others) (hmem : entry ∈ entries)
    (hfinds : Finds others entry other) {third : Entries} (hthird : (mapping third).Distinct)
    {x : Value × Value} : Finds third entry x ↔ Finds third other x := by
  have hkey := (h.key hmem _ (h.distinct'.key hfinds.mem) hfinds.key).2
  have hvalue := (h.value hmem _ (h.distinct'.value hfinds.mem) hfinds.2).2
  have hfind : third.find? (fun e => entry.1.same e.1) = third.find? (fun e => other.1.same e.1) :=
    List.find?_congr fun e he => hkey _ (hthird.key he)
  rw [Finds, Finds, hfind]
  refine and_congr_right ?_
  intro hx
  rw [hvalue _ (hthird.value (List.mem_of_find?_eq_some hx))]

/-- The look-ups succeed from the other side as well. -/
theorem same_symm (h : Pairing entries others) :
    (mapping others).same (mapping entries) = true := by
  rw [same, Bool.and_eq_true, sameEntries_iff]
  refine ⟨beq_iff_eq.mpr h.length.symm, ?_⟩
  intro other hother
  obtain ⟨entry, hentry, hfinds⟩ := h.exists_finds hother
  exact ⟨entry, h.finds_symm hentry hfinds⟩

/-- Both sides compare alike with any third mapping. Only the third one is asked to have distinct
keys, since the two have by the pairing. -/
theorem same_congr (h : Pairing entries others) {third : Entries}
    (hthird : (mapping third).Distinct) :
    (mapping entries).same (mapping third) = (mapping others).same (mapping third) := by
  have hentries : sameEntries entries third = sameEntries others third := by
    rw [Bool.eq_iff_iff, sameEntries_iff, sameEntries_iff]
    constructor
    · intro hall other hother
      obtain ⟨entry, hentry, hfinds⟩ := h.exists_finds hother
      obtain ⟨x, hx⟩ := hall entry hentry
      exact ⟨x, (h.finds_congr hentry hfinds hthird).mp hx⟩
    · intro hall entry hentry
      obtain ⟨other, hfinds⟩ := h.finds entry hentry
      obtain ⟨x, hx⟩ := hall other hfinds.mem
      exact ⟨x, (h.finds_congr hentry hfinds hthird).mpr hx⟩
  rw [same, same, h.length, hentries]

end Pairing

/-- Lists that hold the same values compare alike, when the elements of one are replaceable. -/
theorem forall₂_replaceable {items others : List Value} (hitems : ∀ x ∈ items, x.Replaceable)
    (hothers : ∀ x ∈ others, x.Distinct)
    (h : List.Forall₂ (fun a b => a.same b = true) items others) :
    List.Forall₂ (fun a b => a.same b = true) others items ∧
      ∀ third : List Value, (∀ x ∈ third, x.Distinct) →
        sameItems items third = sameItems others third := by
  induction h with
  | nil => exact ⟨.nil, fun _ _ => rfl⟩
  | @cons item other items others hsame _ ih =>
    obtain ⟨hback, hreplace⟩ := hitems item List.mem_cons_self other
      (hothers other List.mem_cons_self) hsame
    obtain ⟨hbacks, hreplaces⟩ := ih (fun x hx => hitems x (List.mem_cons_of_mem item hx))
      fun x hx => hothers x (List.mem_cons_of_mem other hx)
    refine ⟨.cons hback hbacks, ?_⟩
    intro third hthird
    cases third with
    | nil => rfl
    | cons x third =>
      rw [sameItems, sameItems, hreplace x (hthird x List.mem_cons_self),
        hreplaces third fun y hy => hthird y (List.mem_cons_of_mem x hy)]

/-- A sequence is replaceable when its elements are, since sequences are compared place by place. -/
theorem replaceable_sequence {items : List Value} (hitems : ∀ item ∈ items, item.Replaceable) :
    (sequence items).Replaceable := by
  intro u hu hsame
  cases u with
  | sequence others =>
    rw [same, sameItems_iff] at hsame
    obtain ⟨hback, hreplace⟩ := forall₂_replaceable hitems (fun x hx => hu.part hx) hsame
    refine ⟨by rw [same, sameItems_iff]; exact hback, ?_⟩
    intro x hx
    cases x with
    | sequence third => exact hreplace third fun y hy => hx.part hy
    | _ => rfl
  | _ => cases hsame

/-- A mapping is replaceable when its keys and values are, since the look-ups that succeed pair its
entries off. -/
theorem replaceable_mapping {entries : Entries} (h : (mapping entries).Distinct)
    (hparts : ∀ part ∈ (mapping entries).parts, part.Replaceable) :
    (mapping entries).Replaceable := by
  intro u hu hsame
  cases u with
  | mapping others =>
    rw [same, Bool.and_eq_true, sameEntries_iff] at hsame
    have hpairing : Pairing entries others := ⟨eq_of_beq hsame.1, h, hu, hparts, hsame.2⟩
    refine ⟨hpairing.same_symm, ?_⟩
    intro x hx
    cases x with
    | mapping third => exact hpairing.same_congr hx
    | _ => rfl
  | _ => cases hsame

theorem replaceable_tagged {tag : Tag} {content : Value} (hcontent : content.Replaceable) :
    (tagged tag content).Replaceable := by
  intro u hu hsame
  cases u with
  | tagged other otherContent =>
    rw [same, Bool.and_eq_true] at hsame
    obtain ⟨hback, hreplace⟩ := hcontent otherContent (hu.part List.mem_cons_self) hsame.2
    have htag : tag = other := eq_of_beq hsame.1
    subst htag
    refine ⟨by rw [same, hback, beq_self_eq_true, Bool.true_and], ?_⟩
    intro x hx
    cases x with
    | tagged third thirdContent =>
      rw [same, same, hreplace thirdContent (hx.part List.mem_cons_self)]
    | _ => rfl
  | _ => cases hsame

/-- Of the scalars, numbers alone are the same without being equal, as the two zeros are. They can
take each other's place all the same. -/
theorem replaceable_number (m : Number) : (number m).Replaceable := by
  intro u _ hsame
  cases u with
  | number n =>
    rw [same] at hsame
    obtain ⟨hback, hreplace⟩ := Number.same_replace hsame
    refine ⟨by rw [same, hback], ?_⟩
    intro x _
    cases x with
    | number k => rw [same, same, hreplace k]
    | _ => rfl
  | _ => cases hsame

/-- A value that is the same as nothing but itself is replaceable. -/
theorem replaceable_of_same_eq {v : Value} (h : ∀ u, v.same u = true → u = v) :
    v.Replaceable := by
  intro u _ hsame
  obtain rfl := h u hsame
  exact ⟨hsame, fun _ _ => rfl⟩

/-- **Sameness can be exchanged.** A value with distinct keys can be replaced, in every comparison
with a third value, by any value that is the same, and the two are the same in either order. This is
the induction that proves symmetry and transitivity at once: for mappings each of the two needs both
of them for the keys (`Pairing`). -/
theorem replaceable_of_distinct {v : Value} (h : v.Distinct) : v.Replaceable := by
  induction v using parts_induction with
  | step v ih =>
    have hparts : ∀ part ∈ v.parts, part.Replaceable := fun part hpart =>
      ih part hpart (h.part hpart)
    cases v with
    | sequence items => exact replaceable_sequence hparts
    | mapping entries => exact replaceable_mapping h hparts
    | tagged tag content => exact replaceable_tagged (hparts content List.mem_cons_self)
    | number m => exact replaceable_number m
    | null =>
      refine replaceable_of_same_eq fun u hsame => ?_
      cases u <;> first | rfl | cases hsame
    | bool b =>
      refine replaceable_of_same_eq fun u hsame => ?_
      cases u with
      | bool c => exact congrArg bool (eq_of_beq hsame).symm
      | _ => cases hsame
    | string s =>
      refine replaceable_of_same_eq fun u hsame => ?_
      cases u with
      | string t => exact congrArg string (eq_of_beq hsame).symm
      | _ => cases hsame

/-- Sameness has no direction. Both values need distinct keys: the look-ups are made from one side,
and a key that occurs twice is only found once. -/
theorem same_symm {v u : Value} (hv : v.Distinct) (hu : u.Distinct) : v.same u = u.same v := by
  rw [Bool.eq_iff_iff]
  constructor
  · intro h
    exact (replaceable_of_distinct hv u hu h).1
  · intro h
    exact (replaceable_of_distinct hu v hv h).1

end Value

end YamlWeave
