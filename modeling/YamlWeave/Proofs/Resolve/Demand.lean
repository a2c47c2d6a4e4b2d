import YamlWeave.Proofs.Except
import YamlWeave.Proofs.Value.Parts
import YamlWeave.Resolve

/-!
# What a node calls for

Resolving a value without a tag is resolving its parts from the first to the last and putting them
together again (`resolved_of_not_tagged`). Resolving a value with a tag comes down to one of three
things, which the tag and the shape of the content decide (`Resolver.demand`): the content is
resolved and put in place, or files are loaded, or the outcome stands at once
(`resolved_tagged`). All laws of resolving go by these two equations.
-/

set_option autoImplicit false

namespace YamlWeave

namespace Value

/-- Keys and values in turn, as entries. -/
def pairs : List Value → List (Value × Value)
  | key :: value :: rest => (key, value) :: pairs rest
  | _ => []

/-- A value without a tag, with other parts in place of its own. The entries of a mapping are put in
one after the other. -/
def withParts : Value → List Value → Value
  | .sequence _, parts => .sequence parts
  | .mapping _, parts => .mapping (Entries.ofList (pairs parts))
  | value, _ => value

variable {r : Resolver}

theorem resolvedItems_eq_mapM (items : List Value) :
    resolvedItems r items = items.mapM (resolved r) := by
  induction items with
  | nil => rfl
  | cons item items ih => rw [List.mapM_cons, resolvedItems, ih]

/-- Entries are resolved from the first to the last, each key before its value. With the keys and
values in one row, mappings follow the same law as sequences. -/
theorem resolvedEntries_eq_mapM (entries : Entries) :
    resolvedEntries r entries = pairs <$> (mapping entries).parts.mapM (resolved r) := by
  induction entries with
  | nil => rfl
  | cons entry entries ih =>
    obtain ⟨key, value⟩ := entry
    have hparts : (mapping ((key, value) :: entries)).parts =
        key :: value :: (mapping entries).parts := rfl
    simp only [hparts, List.mapM_cons, resolvedEntries, ih, map_eq_pure_bind, bind_assoc,
      pure_bind, pairs]

/-- A value without a tag is resolved part by part. Only the putting together tells a mapping from a
sequence. -/
theorem resolved_of_not_tagged {v : Value} (h : v.isTagged = false) :
    resolved r v = v.withParts <$> v.parts.mapM (resolved r) := by
  cases v with
  | sequence items =>
    rw [resolved, resolvedItems_eq_mapM, map_eq_pure_bind]
    rfl
  | mapping entries =>
    rw [resolved, resolvedEntries_eq_mapM, map_eq_pure_bind, map_eq_pure_bind, bind_assoc]
    rfl
  | tagged tag content => cases h
  | _ => rfl

end Value

/-- What resolving a node with a tag comes down to. -/
inductive Demand where
  /-- The content is resolved, and a value is made of it. -/
  | content (place : Value → Value)
  /-- The files that the content names are loaded. -/
  | files
  /-- The outcome stands, whatever files hold. -/
  | nothing (outcome : Except Failure Value)

namespace Resolver

/-- What a node with a tag calls for. -/
def demand (r : Resolver) (tag : Tag) (content : Value) : Demand :=
  if tag.isNonSpecific then
    match content with
    | .sequence _ | .mapping _ | .tagged _ _ => .content id
    | scalar => .nothing (.ok (.string scalar.operandText))
  else
    match Handler.ofTag? tag.text with
    | some .inclusion => .files
    | some .environment => .nothing (r.environment tag content)
    | some (.function name) =>
      match content with
      | .sequence _ | .mapping _ => .content (Value.function name)
      | .tagged _ _ => .nothing (.error (.malformedTag tag.text))
      | scalar => .nothing (.ok (Value.function name (.string scalar.operandText)))
    | none => .nothing (.error (.unknownTag tag.text))

end Resolver

namespace Value

open Resolver

/-- A value with a tag is resolved as its node demands. The nested matches of the function are gone
from here on: proofs go by the three cases. -/
theorem resolved_tagged (r : Resolver) (tag : Tag) (content : Value) :
    resolved r (.tagged tag content) =
      match r.demand tag content with
      | .content place => place <$> resolved r content
      | .files => r.included content
      | .nothing outcome => outcome := by
  cases hspecific : tag.isNonSpecific with
  | true => cases content <;> simp [resolved, demand, hspecific]
  | false =>
    cases hhandler : Handler.ofTag? tag.text with
    | none => cases content <;> simp [resolved, demand, hspecific, hhandler]
    | some handler =>
      cases handler <;> cases content <;> simp [resolved, demand, hspecific, hhandler]

end Value

end YamlWeave
