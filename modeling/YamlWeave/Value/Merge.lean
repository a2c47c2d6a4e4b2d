import YamlWeave.Value.Basic

/-!
# Merge keys

A mapping with the key `<<` takes in the entries of the mapping under that key, or of several
mappings in a list, as far as it has no entries of its own with the same keys. Of several mappings
the first one that has a key counts. Merging is done in every mapping that is reached through values
and elements, the taken-in values included, once in each. Keys are not entered.

Values are visited from the last one to the first, each with everything inside it. This decides
which of several faults is found.
-/

set_option autoImplicit false

namespace YamlWeave

/-- Why a value under a merge key cannot be merged. -/
inductive MergeFault where
  /-- The value is neither a mapping nor a list. -/
  | scalar
  | tagged
  /-- An element of the list is neither a mapping nor a list. -/
  | scalarElement
  /-- An element of the list is a list itself. -/
  | sequenceElement
  /-- An element of the list has a tag. -/
  | taggedElement
deriving DecidableEq

namespace MergeFault

def message : MergeFault → String
  | .scalar => "expected a mapping or list of mappings for merging, but found scalar"
  | .scalarElement => "expected a mapping for merging, but found scalar"
  | .sequenceElement => "expected a mapping for merging, but found sequence"
  | .tagged | .taggedElement => "unexpected tagged value in merge"

end MergeFault

namespace Value

def mergeKey : Value := .string "<<"

end Value

namespace Entries

/-- Takes in the entries of the mappings in a list, one mapping after the other. -/
def takeInAll (entries : Entries) : List Value → Except MergeFault Entries
  | [] => .ok entries
  | .mapping additions :: rest => takeInAll (entries.addMissing additions) rest
  | .sequence _ :: _ => .error .sequenceElement
  | .tagged _ _ :: _ => .error .taggedElement
  | _ :: _ => .error .scalarElement

/-- Takes in the entries of what stands under a merge key. -/
def takeIn (entries : Entries) : Value → Except MergeFault Entries
  | .mapping additions => .ok (entries.addMissing additions)
  | .sequence items => entries.takeInAll items
  | .tagged _ _ => .error .tagged
  | _ => .error .scalar

/-- The entries of a mapping once its own merge key is resolved. -/
def flatten (entries : Entries) : Except MergeFault Entries :=
  match entries.takeOut? .mergeKey with
  | none => .ok entries
  | some (source, own) => own.takeIn source

end Entries

/-! ## How much is left to visit

Resolving a merge key moves entries up and never copies them, so a mapping does not grow by it. -/

namespace Value

mutual

/-- The size of a value: the number of values in it, itself included, and one more for each element
of a sequence. -/
def weight : Value → Nat
  | .sequence items => weightItems items + 1
  | .mapping entries => weightEntries entries + 1
  | .tagged _ content => content.weight + 1
  | _ => 1
termination_by structural value => value

/-- The number of values in a list, and one more for each element. -/
def weightItems : List Value → Nat
  | [] => 0
  | item :: items => item.weight + weightItems items + 1
termination_by structural items => items

/-- The number of values in entries, keys included. -/
def weightEntries : List (Value × Value) → Nat
  | [] => 0
  | (key, value) :: entries => key.weight + value.weight + weightEntries entries
termination_by structural entries => entries

end

/-- Every value counts, so what is inside a mapping or a sequence weighs less than the whole. -/
theorem weight_pos (value : Value) : 0 < value.weight := by
  cases value <;> simp only [weight] <;> omega

end Value

namespace Entries

open Value

@[simp] theorem weightEntries_nil : weightEntries [] = 0 := rfl

@[simp] theorem weightEntries_cons (entry : Value × Value) (entries : Entries) :
    weightEntries (entry :: entries) = entry.1.weight + entry.2.weight + weightEntries entries :=
  rfl

@[simp] theorem weightEntries_append (entries others : Entries) :
    weightEntries (entries ++ others) = weightEntries entries + weightEntries others := by
  induction entries with
  | nil => simp only [List.nil_append, weightEntries_nil, Nat.zero_add]
  | cons entry entries ih => simp only [List.cons_append, weightEntries_cons, ih, Nat.add_assoc]

/-- Moving the last entry to the front changes nothing but the order. -/
theorem weightEntries_lastToFront (entries : Entries) :
    weightEntries entries.lastToFront = weightEntries entries := by
  unfold lastToFront
  cases h : entries.getLast? with
  | none => simp [List.getLast?_eq_none_iff.mp h]
  | some last =>
    obtain ⟨front, rfl⟩ := List.getLast?_eq_some_iff.mp h
    simp only [List.dropLast_concat, weightEntries_cons, weightEntries_append, weightEntries_nil]
    omega

/-- An entry that is taken out leaves the others, and its key is gone. The key of a merge weighs
something, so what is left and what was under it weigh less than the mapping. -/
theorem weightEntries_takeOut? {key source : Value} {entries left : Entries}
    (h : entries.takeOut? key = some (source, left)) :
    source.weight + weightEntries left < weightEntries entries := by
  induction entries generalizing left with
  | nil => simp [takeOut?] at h
  | cons entry entries ih =>
    obtain ⟨k, v⟩ := entry
    unfold takeOut? at h
    split at h
    · cases h
      have := weight_pos k
      simp only [weightEntries_cons, weightEntries_lastToFront]
      omega
    · obtain ⟨⟨value, others⟩, hfound, heq⟩ := Option.map_eq_some_iff.mp h
      cases heq
      have := ih hfound
      simp only [weightEntries_cons]
      omega

/-- Taking in entries adds at most those entries. Keys that are there already add nothing, and the
weight of what was there stays. -/
theorem weightEntries_addMissing (entries additions : Entries) :
    weightEntries (entries.addMissing additions) ≤
      weightEntries entries + weightEntries additions := by
  unfold addMissing
  induction additions generalizing entries with
  | nil => simp
  | cons addition additions ih =>
    simp only [List.foldl_cons, weightEntries_cons]
    split
    · have := ih entries
      omega
    · have := ih (entries ++ [addition])
      simp only [weightEntries_append, weightEntries_cons, weightEntries_nil] at this
      omega

/-- Taking in the elements of a sequence, one after the other, adds at most what they weigh
together. Where an element is no mapping, nothing comes out and there is nothing to weigh. -/
theorem weightEntries_takeInAll {entries merged : Entries} {items : List Value}
    (h : entries.takeInAll items = .ok merged) :
    weightEntries merged ≤ weightEntries entries + weightItems items := by
  induction items generalizing entries with
  | nil => cases h; simp
  | cons item items ih =>
    cases item with
    | mapping additions =>
      have := ih h
      have := weightEntries_addMissing entries additions
      simp only [weightItems, weight]
      omega
    | _ => cases h

/-- Taking in what stands under a merge key adds at most as much as stood there. A single mapping
and a sequence of mappings are weighed alike. -/
theorem weightEntries_takeIn {entries merged : Entries} {source : Value}
    (h : entries.takeIn source = .ok merged) :
    weightEntries merged ≤ weightEntries entries + source.weight := by
  cases source with
  | mapping additions =>
    cases h
    have := weightEntries_addMissing entries additions
    simp only [weight]
    omega
  | sequence items =>
    have := weightEntries_takeInAll h
    simp only [weight]
    omega
  | _ => cases h

/-- A mapping does not grow when its merge key is resolved. Merging goes on inside the outcome, so
this is why it ends. -/
theorem weightEntries_flatten {entries merged : Entries} (h : entries.flatten = .ok merged) :
    weightEntries merged ≤ weightEntries entries := by
  unfold flatten at h
  split at h
  · cases h; exact Nat.le_refl _
  · next source own hfound =>
    have := weightEntries_takeOut? hfound
    have := weightEntries_takeIn h
    omega

end Entries

/-! ## Merging -/

namespace Value

mutual

/-- A value with all its merge keys resolved. -/
def merged (value : Value) : Except MergeFault Value :=
  match value with
  | .mapping entries =>
    match _flat : Entries.flatten entries with
    | .error fault => .error fault
    | .ok entries' => do return .mapping (← mergedEntries entries')
  | .sequence items => do return .sequence (← mergedItems items)
  | .tagged tag content => do return .tagged tag (← merged content)
  | value => .ok value
termination_by value.weight
decreasing_by
  · have := Entries.weightEntries_flatten _flat
    simp only [weight]
    omega
  all_goals simp only [weight]; omega

/-- The elements of a sequence with all their merge keys resolved, the last element first. -/
def mergedItems (items : List Value) : Except MergeFault (List Value) :=
  match items with
  | [] => .ok []
  | item :: items => do
    let items ← mergedItems items
    return (← merged item) :: items
termination_by weightItems items
decreasing_by all_goals
  simp only [weightItems]
  omega

/-- The entries of a mapping with all the merge keys in their values resolved, the last entry
first. -/
def mergedEntries (entries : Entries) : Except MergeFault Entries :=
  match entries with
  | [] => .ok []
  | (key, value) :: entries => do
    let entries ← mergedEntries entries
    return (key, ← merged value) :: entries
termination_by weightEntries entries
decreasing_by all_goals
  have := weight_pos key
  have := weight_pos value
  simp only [weightEntries]
  omega

end

end Value

end YamlWeave
