import YamlWeave.Proofs.Resolve.Demand

/-!
# The order of resolving

Resolving gets to a value before it gets to what is inside it, to elements and entries from the
first to the last, and to a key before its value. It also gets to what stands under the tag of a
function, or under a tag that says nothing. It does not get to operands that name files or
variables, nor to anything under a tag that is not known (`Value.visited`).

A node with a tag may fail **on its own**: its tag is not known, the handler of its tag refuses it,
or it is for a function and stands directly on another tag (`Resolver.ownFailure?`). A value fails
as the first such node does that resolving gets to, and is resolved when there is none
(`failure?_resolved`). So all that resolving gets to is resolved when the whole is
(`exists_resolved_of_visited`).
-/

set_option autoImplicit false

namespace YamlWeave

/-- Whether resolving goes on with what stands under the tag. -/
def Tag.opens (tag : Tag) : Bool :=
  tag.isNonSpecific ||
    match Handler.ofTag? tag.text with
    | some (.function _) => true
    | _ => false

/-- The failure of a node that is due to the node itself, and to nothing that stands inside it. -/
def Resolver.ownFailure? (r : Resolver) : Value → Option Failure
  | .tagged tag content =>
    if tag.isNonSpecific then none
    else
      match Handler.ofTag? tag.text with
      | none => some (.unknownTag tag.text)
      | some .inclusion => failure? (r.included content)
      | some .environment => failure? (r.environment tag content)
      | some (.function _) => if content.isTagged then some (.malformedTag tag.text) else none
  | _ => none

namespace Value

mutual

/-- A value and what resolving it gets to inside, in this order. -/
def visited : Value → List Value
  | .tagged tag content => .tagged tag content :: if tag.opens then content.visited else []
  | .sequence items => .sequence items :: visitedOfItems items
  | .mapping entries => .mapping entries :: visitedOfEntries entries
  | scalar => [scalar]
termination_by structural value => value

def visitedOfItems : List Value → List Value
  | [] => []
  | item :: items => item.visited ++ visitedOfItems items
termination_by structural items => items

def visitedOfEntries : List (Value × Value) → List Value
  | [] => []
  | (key, value) :: entries => key.visited ++ (value.visited ++ visitedOfEntries entries)
termination_by structural entries => entries

end

theorem visitedOfItems_eq (items : List Value) : visitedOfItems items = items.flatMap visited := by
  induction items with
  | nil => rfl
  | cons item items ih => rw [visitedOfItems, ih, List.flatMap_cons]

theorem visitedOfEntries_eq (entries : Entries) :
    visitedOfEntries entries = (mapping entries).parts.flatMap visited := by
  induction entries with
  | nil => rfl
  | cons entry entries ih =>
    obtain ⟨key, value⟩ := entry
    have hparts : (mapping ((key, value) :: entries)).parts =
        key :: value :: (mapping entries).parts := rfl
    rw [visitedOfEntries, ih, hparts, List.flatMap_cons, List.flatMap_cons]

/-- A value without a tag comes before its parts. Each part comes with all that is inside it before
the next one. -/
theorem visited_of_not_tagged {v : Value} (h : v.isTagged = false) :
    v.visited = v :: v.parts.flatMap visited := by
  cases v with
  | sequence items => rw [visited, visitedOfItems_eq]; rfl
  | mapping entries => rw [visited, visitedOfEntries_eq]
  | tagged tag content => cases h
  | _ => rfl

theorem mem_visited_self (v : Value) : v ∈ v.visited := by
  cases v <;> exact List.mem_cons_self

/-- What it gets to in a part, it gets to in a value without a tag. -/
theorem mem_visited_of_part {v part x : Value} (h : v.isTagged = false) (hpart : part ∈ v.parts)
    (hx : x ∈ part.visited) : x ∈ v.visited := by
  rw [visited_of_not_tagged h]
  exact List.mem_cons_of_mem v (List.mem_flatMap.mpr ⟨part, hpart, hx⟩)

/-- What resolving gets to inside a value that it gets to, it gets to inside the whole. So being
visited can be proved one level at a time. -/
theorem visited_subset {v x : Value} (hx : x ∈ v.visited) : x.visited ⊆ v.visited := by
  induction v using parts_induction with
  | step v ih =>
    cases htag : v.isTagged with
    | false =>
      rw [visited_of_not_tagged htag] at hx
      rcases List.mem_cons.mp hx with rfl | hx
      · exact List.Subset.refl _
      · obtain ⟨part, hpart, hx⟩ := List.mem_flatMap.mp hx
        exact fun y hy => mem_visited_of_part htag hpart (ih part hpart hx hy)
    | true =>
      cases v with
      | tagged tag content =>
        rw [visited] at hx
        rcases List.mem_cons.mp hx with rfl | hx
        · exact List.Subset.refl _
        · split at hx
          · next hopens =>
            rw [visited, if_pos hopens]
            exact List.subset_cons_of_subset _ (ih content List.mem_cons_self hx)
          · exact absurd hx List.not_mem_nil
      | _ => cases htag

variable {r : Resolver} {v u x : Value}

/-- Only nodes with tags fail on their own. A sequence or a mapping fails as something inside it
does. -/
theorem ownFailure?_of_not_tagged (h : v.isTagged = false) : r.ownFailure? v = none := by
  cases v <;> first | rfl | cases h

/-- A node with a tag fails on its own, or else as what stands under its tag does. Its own failure
comes first, also where what stands under it fails as well. -/
theorem failure?_resolved_tagged (tag : Tag) (content : Value) :
    failure? (resolved r (.tagged tag content)) =
      (r.ownFailure? (.tagged tag content)).or
        (if tag.opens then failure? (resolved r content) else none) := by
  rw [resolved_tagged]
  cases hspecific : tag.isNonSpecific with
  | true =>
    cases content <;> simp [Resolver.demand, Resolver.ownFailure?, Tag.opens, hspecific, resolved]
  | false =>
    cases hhandler : Handler.ofTag? tag.text with
    | none => simp [Resolver.demand, Resolver.ownFailure?, Tag.opens, hspecific, hhandler]
    | some handler =>
      cases handler <;> cases content <;>
        simp [Resolver.demand, Resolver.ownFailure?, Tag.opens, hspecific, hhandler, resolved,
          isTagged]

/-- **The first failure in order counts.** The failure of a value is that of the first node that
resolving gets to and that fails on its own. -/
theorem failure?_resolved (r : Resolver) (v : Value) :
    failure? (resolved r v) = v.visited.findSome? r.ownFailure? := by
  induction v using parts_induction with
  | step v ih =>
    cases htag : v.isTagged with
    | false =>
      rw [resolved_of_not_tagged htag, failure?_map, failure?_mapM, visited_of_not_tagged htag,
        List.findSome?_cons, ownFailure?_of_not_tagged htag, findSome?_flatMap]
      exact findSome?_congr ih
    | true =>
      cases v with
      | tagged tag content =>
        rw [failure?_resolved_tagged, ih content List.mem_cons_self, visited, List.findSome?_cons]
        cases r.ownFailure? (.tagged tag content) with
        | some e => rfl
        | none => cases tag.opens <;> rfl
      | _ => cases htag

/-- What resolving gets to in a value that is resolved is resolved. A failure further in would have
been the failure of the whole. -/
theorem exists_resolved_of_visited (h : resolved r v = .ok u) (hx : x ∈ v.visited) :
    ∃ y, resolved r x = .ok y := by
  have hnone : v.visited.findSome? r.ownFailure? = none := by
    rw [← failure?_resolved, h]
    rfl
  rw [← failure?_eq_none, failure?_resolved, List.findSome?_eq_none_iff]
  intro y hy
  exact List.findSome?_eq_none_iff.mp hnone y (visited_subset hx hy)

end Value

end YamlWeave
