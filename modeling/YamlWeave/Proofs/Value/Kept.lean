import YamlWeave.Proofs.Except
import YamlWeave.Proofs.Value.Parts
import YamlWeave.Value.Merge

/-!
# What putting values together keeps

A document comes about by few steps: sequences and mappings are put together from parts, entries are
put in, appended or taken out, and values are exchanged for merged ones. A property that holds of
scalars and that each of these steps keeps (`Value.Kept`) holds of all that is made of values that
have it. Which steps there are is said here once, for all properties.
-/

set_option autoImplicit false

namespace YamlWeave.Value

/-- A property that holds of scalars, passes on to parts and is kept when values are put
together. -/
structure Kept (P : Value → Prop) : Prop where
  part : ∀ {v part : Value}, P v → part ∈ v.parts → P part
  scalar : ∀ {v : Value}, v.isScalar = true → P v
  sequence : ∀ {items : List Value}, (∀ item ∈ items, P item) → P (.sequence items)
  empty : P (.mapping [])
  insert : ∀ {entries : Entries} {key value : Value}, P (.mapping entries) → P key → P value →
    P (.mapping (entries.insert key value))
  addMissing : ∀ {entries additions : Entries}, P (.mapping entries) → P (.mapping additions) →
    P (.mapping (entries.addMissing additions))
  takeOut? : ∀ {entries left : Entries} {key source : Value}, P (.mapping entries) →
    entries.takeOut? key = some (source, left) → P source ∧ P (.mapping left)
  /-- Other values may stand under the same keys. -/
  values : ∀ {entries others : Entries}, P (.mapping entries) →
    List.Forall₂ (fun a b => a.1 = b.1) entries others → (∀ entry ∈ others, P entry.2) →
      P (.mapping others)
  /-- Another content may stand under the same tag. -/
  content : ∀ {tag : Tag} {content other : Value}, P (.tagged tag content) → P other →
    P (.tagged tag other)

namespace Kept

variable {P : Value → Prop} {entries : Entries}

/-- A key of a mapping has the property. -/
theorem key (hP : Kept P) (h : P (.mapping entries)) {entry : Value × Value}
    (hentry : entry ∈ entries) : P entry.1 :=
  hP.part h (mem_parts_mapping.mpr ⟨entry, hentry, .inl rfl⟩)

theorem value (hP : Kept P) (h : P (.mapping entries)) {entry : Value × Value}
    (hentry : entry ∈ entries) : P entry.2 :=
  hP.part h (mem_parts_mapping.mpr ⟨entry, hentry, .inr rfl⟩)

theorem insertAll (hP : Kept P) (h : P (.mapping entries)) {additions : Entries}
    (hadditions : ∀ addition ∈ additions, P addition.1 ∧ P addition.2) :
    P (.mapping (entries.insertAll additions)) := by
  induction additions generalizing entries with
  | nil => exact h
  | cons addition additions ih =>
    obtain ⟨hkey, hvalue⟩ := hadditions addition List.mem_cons_self
    exact ih (hP.insert h hkey hvalue) fun other hother =>
      hadditions other (List.mem_cons_of_mem addition hother)

/-- Taking in a sequence of mappings keeps the property. What cannot be taken in gives nothing to
ask about. -/
theorem takeInAll (hP : Kept P) (h : P (.mapping entries)) {items : List Value}
    (hitems : ∀ item ∈ items, P item) {merged : Entries}
    (hmerged : entries.takeInAll items = .ok merged) : P (.mapping merged) := by
  induction items generalizing entries with
  | nil =>
    cases hmerged
    exact h
  | cons item items ih =>
    cases item with
    | mapping additions =>
      have hadded := hP.addMissing h (hitems _ List.mem_cons_self)
      exact ih hadded (fun x hx => hitems x (List.mem_cons_of_mem _ hx)) hmerged
    | _ => cases hmerged

theorem takeIn (hP : Kept P) (h : P (.mapping entries)) {source : Value} (hsource : P source)
    {merged : Entries} (hmerged : entries.takeIn source = .ok merged) : P (.mapping merged) := by
  cases source with
  | mapping additions =>
    cases hmerged
    exact hP.addMissing h hsource
  | sequence items => exact hP.takeInAll h (fun _ hitem => hP.part hsource hitem) hmerged
  | _ => cases hmerged

/-- Resolving the merge key of a mapping keeps the property. Values inside are not merged yet, so
this is one step of `Kept.merged`. -/
theorem flatten (hP : Kept P) (h : P (.mapping entries)) {merged : Entries}
    (hmerged : entries.flatten = .ok merged) : P (.mapping merged) := by
  unfold Entries.flatten at hmerged
  split at hmerged
  · cases hmerged
    exact h
  · next source own hfound =>
    obtain ⟨hsource, hown⟩ := hP.takeOut? h hfound
    exact hP.takeIn hown hsource hmerged

end Kept

end YamlWeave.Value
