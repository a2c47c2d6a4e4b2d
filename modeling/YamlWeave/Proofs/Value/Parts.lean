import YamlWeave.Value.Basic

/-!
# The parts of a value

A value is either a scalar, or it has **parts**: the elements of a sequence, the keys and the values
of a mapping, each key before its value, and what stands under a tag. Every walk over a value visits
its parts from the first to the last, so a law that holds of a value as soon as it holds of its
parts holds of all values (`parts_induction`).

`x.Within v` says that `x` is `v` or stands inside it at any depth, as a key or below a tag as well.
Which nodes with a tag stand inside a value can be computed (`mem_nodes`). A value in which no tag
stands directly on another one (`TaggedOnce`) has no tags to hide below a tag on a scalar.
-/

set_option autoImplicit false

namespace YamlWeave.Value

/-- The values directly inside a value, in order. -/
def parts : Value → List Value
  | .sequence items => items
  | .mapping entries => entries.flatMap fun entry => [entry.1, entry.2]
  | .tagged _ content => [content]
  | _ => []

/-- Whether a value has a tag. -/
def isTagged : Value → Bool
  | .tagged _ _ => true
  | _ => false

/-- Whether a value is null, a truth value, a number or a string. -/
def isScalar : Value → Bool
  | .null | .bool _ | .number _ | .string _ => true
  | _ => false

theorem parts_of_isScalar {v : Value} (h : v.isScalar = true) : v.parts = [] := by
  cases v <;> first | rfl | cases h

theorem isTagged_of_isScalar {v : Value} (h : v.isScalar = true) : v.isTagged = false := by
  cases v <;> first | rfl | cases h

/-- The parts of a mapping are its keys and its values, with nothing to tell the two apart. -/
theorem mem_parts_mapping {entries : Entries} {part : Value} :
    part ∈ (mapping entries).parts ↔ ∃ entry ∈ entries, part = entry.1 ∨ part = entry.2 := by
  simp [parts]

/-- A part is smaller than the whole. Keys and values of a mapping are parts alike, and recursions
on the parts of a value end for this reason. -/
theorem sizeOf_lt_of_mem_parts {v part : Value} (h : part ∈ v.parts) : sizeOf part < sizeOf v := by
  cases v with
  | sequence items =>
    have hlt : sizeOf part < sizeOf items := List.sizeOf_lt_of_mem h
    simp only [sequence.sizeOf_spec]
    omega
  | mapping entries =>
    obtain ⟨⟨key, value⟩, hmem, heq⟩ := mem_parts_mapping.mp h
    have := List.sizeOf_lt_of_mem hmem
    simp only [mapping.sizeOf_spec, Prod.mk.sizeOf_spec] at this ⊢
    rcases heq with rfl | rfl <;> omega
  | tagged tag content =>
    rw [List.mem_singleton.mp h, tagged.sizeOf_spec]
    omega
  | _ => exact absurd h List.not_mem_nil

/-- What holds of a value as soon as it holds of its parts holds of every value. It replaces the
three nested inductions that the lists inside values would ask for. -/
theorem parts_induction {P : Value → Prop} (step : ∀ v : Value, (∀ part ∈ v.parts, P part) → P v)
    (v : Value) : P v :=
  step v fun part _ => parts_induction step part
termination_by sizeOf v
decreasing_by exact sizeOf_lt_of_mem_parts ‹_›

/-- A value and all that stands inside it, at any depth. -/
inductive Within : Value → Value → Prop
  | self (v : Value) : Within v v
  | part {x part v : Value} (hpart : part ∈ v.parts) (hx : Within x part) : Within x v

/-- What stands inside something inside a value stands inside the value. -/
theorem Within.trans {x y v : Value} (hx : x.Within y) (hy : y.Within v) : x.Within v := by
  induction hy with
  | self => exact hx
  | part hpart _ ih => exact .part hpart ih

mutual

/-- The tags inside a value with what stands under each, an outer one before those inside it. -/
def nodes : Value → List (Tag × Value)
  | .tagged tag content => (tag, content) :: content.nodes
  | .sequence items => nodesOfItems items
  | .mapping entries => nodesOfEntries entries
  | _ => []
termination_by structural value => value

def nodesOfItems : List Value → List (Tag × Value)
  | [] => []
  | item :: items => item.nodes ++ nodesOfItems items
termination_by structural items => items

def nodesOfEntries : List (Value × Value) → List (Tag × Value)
  | [] => []
  | (key, value) :: entries => key.nodes ++ (value.nodes ++ nodesOfEntries entries)
termination_by structural entries => entries

end

theorem nodesOfItems_eq (items : List Value) : nodesOfItems items = items.flatMap nodes := by
  induction items with
  | nil => rfl
  | cons item items ih => rw [nodesOfItems, ih, List.flatMap_cons]

theorem nodesOfEntries_eq (entries : Entries) :
    nodesOfEntries entries = (mapping entries).parts.flatMap nodes := by
  induction entries with
  | nil => rfl
  | cons entry entries ih =>
    obtain ⟨key, value⟩ := entry
    have hparts : (mapping ((key, value) :: entries)).parts =
        key :: value :: (mapping entries).parts := rfl
    rw [nodesOfEntries, ih, hparts, List.flatMap_cons, List.flatMap_cons]

/-- The nodes of a value are those of its parts, after its own. -/
theorem nodes_eq (v : Value) :
    v.nodes = (match v with | .tagged tag content => [(tag, content)] | _ => []) ++
      v.parts.flatMap nodes := by
  cases v with
  | sequence items => exact nodesOfItems_eq items
  | mapping entries => exact nodesOfEntries_eq entries
  | tagged tag content => simp [nodes, parts]
  | _ => rfl

/-- The nodes of a value are those that stand inside it. So what is said of all tags at any depth
can be checked by going through a list. -/
theorem mem_nodes {v content : Value} {tag : Tag} :
    (tag, content) ∈ v.nodes ↔ (tagged tag content).Within v := by
  constructor
  · intro h
    induction v using parts_induction with
    | step v ih =>
      rw [nodes_eq, List.mem_append, List.mem_flatMap] at h
      rcases h with hown | ⟨part, hpart, hinside⟩
      · split at hown
        · cases List.mem_singleton.mp hown
          exact .self _
        · exact absurd hown List.not_mem_nil
      · exact .part hpart (ih part hpart hinside)
  · intro h
    induction h with
    | self => exact List.mem_cons_self
    | part hpart _ ih =>
      rw [nodes_eq, List.mem_append, List.mem_flatMap]
      exact .inr ⟨_, hpart, ih⟩

/-- Inside a scalar stands no tag. -/
theorem not_within_of_isScalar {v : Value} (h : v.isScalar = true) {tag : Tag} {content : Value} :
    ¬ (tagged tag content).Within v := by
  intro hwithin
  cases hwithin with
  | self => cases h
  | part hpart _ => exact absurd (parts_of_isScalar h ▸ hpart) List.not_mem_nil

/-! ## Tags on tags -/

/-- No tag inside a value stands directly on a value with a tag. -/
def TaggedOnce (v : Value) : Prop :=
  ∀ tag content, (tagged tag content).Within v → content.isTagged = false

/-- No tag stands on a tag when none does in the parts, nor on top. -/
theorem taggedOnce_of_parts {v : Value} (hown : ∀ tag content, v = tagged tag content →
    content.isTagged = false) (hparts : ∀ part ∈ v.parts, part.TaggedOnce) : v.TaggedOnce := by
  intro tag content hwithin
  cases hwithin with
  | self => exact hown tag content rfl
  | part hpart hx => exact hparts _ hpart tag content hx

theorem taggedOnce_of_isScalar {v : Value} (h : v.isScalar = true) : v.TaggedOnce :=
  fun _ _ hwithin => absurd hwithin (not_within_of_isScalar h)

namespace TaggedOnce

variable {v part : Value}

/-- What holds of all tags inside a value holds of those inside its parts. -/
theorem of_part (h : v.TaggedOnce) (hpart : part ∈ v.parts) : part.TaggedOnce :=
  fun tag content hwithin => h tag content (.part hpart hwithin)

/-- Null has at most one tag in front of it where no tag stands on another one. So a value with a
tag below its first level is not null. -/
theorem isNull_of_within_part (h : v.TaggedOnce) (hpart : part ∈ v.parts) {tag : Tag}
    {content : Value} (hwithin : (tagged tag content).Within part) : v.isNull = false := by
  cases v with
  | tagged outer inner =>
    obtain rfl := List.mem_singleton.mp hpart
    have huntagged := h outer part (.self _)
    cases part with
    | null => exact absurd hwithin (not_within_of_isScalar (v := null) rfl)
    | tagged => cases huntagged
    | _ => rfl
  | null => exact absurd hpart List.not_mem_nil
  | _ => rfl

theorem tagged {content : Value} (h : content.TaggedOnce) (htag : content.isTagged = false)
    (tag : Tag) : (Value.tagged tag content).TaggedOnce := by
  refine taggedOnce_of_parts ?_ ?_
  · intro other inner heq
    cases heq
    exact htag
  · intro part hpart
    exact List.mem_singleton.mp hpart ▸ h

end TaggedOnce

end YamlWeave.Value
