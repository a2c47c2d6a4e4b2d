import YamlWeave.Proofs.Resolve.Demand

/-!
# Values whose tags are functions

A value may have no other tags than those of functions and those that say nothing, with no function
directly on another tag (`Value.OnlyFunctions`). What such a value means is settled by the value
alone: each function becomes the mapping that names it, from the inside out
(`Value.spelledOut`). Resolving comes to just this (`resolved_of_onlyFunctions`), so it asks for
nothing and does not fail.

The law does not say which values resolving never fails for. A variable without a name is null in
every world, too.
-/

set_option autoImplicit false

namespace YamlWeave

/-! ## Tags of functions -/

namespace Tag

variable {tag : Tag}

/-- Whether a tag is that of a function. -/
def isFunction (tag : Tag) : Bool :=
  Handler.functions.contains tag.name

/-- The handler of such a tag is that of the function with the name of the tag. -/
theorem ofTag?_of_isFunction (h : tag.isFunction = true) :
    Handler.ofTag? tag.text = some (.function tag.name) := by
  have htable : ∀ name ∈ Handler.functions,
      Handler.ofTag? ("!" ++ name) = some (.function name) := by
    decide
  exact htable tag.name (List.contains_iff_mem.mp h)

/-- A tag that says nothing is not that of a function. -/
theorem not_isFunction_of_isNonSpecific (h : tag.isNonSpecific = true) :
    tag.isFunction = false := by
  have hnames : ∀ name ∈ Handler.functions, name.toList.all (· == '!') = false := by
    decide
  by_contra hfunction
  have hname := hnames tag.name (List.contains_iff_mem.mp (Bool.not_eq_false _ ▸ hfunction))
  exact Bool.false_ne_true (hname.symm.trans h)

end Tag

namespace Value

variable {v content : Value} {tag : Tag} {r : Resolver}

/-- Whether a tag with this content is that of a function that does not stand directly on another
tag, or says nothing. -/
def isFunctionNode (tag : Tag) (content : Value) : Bool :=
  tag.isNonSpecific || (tag.isFunction && !content.isTagged)

/-- All tags inside a value, in its keys as well, are those of functions, none of which stands
directly on another tag, or say nothing. -/
def OnlyFunctions (v : Value) : Prop :=
  ∀ tag content, (tagged tag content).Within v → isFunctionNode tag content = true

/-- The tags inside a value can be gone through, so the condition is decided by looking at each
once. -/
theorem onlyFunctions_iff :
    v.OnlyFunctions ↔ ∀ node ∈ v.nodes, isFunctionNode node.1 node.2 = true := by
  constructor
  · exact fun h node hnode => h node.1 node.2 (mem_nodes.mp hnode)
  · exact fun h tag content hwithin => h (tag, content) (mem_nodes.mpr hwithin)

instance : DecidablePred OnlyFunctions :=
  fun v => decidable_of_iff (∀ node ∈ v.nodes, isFunctionNode node.1 node.2 = true)
    onlyFunctions_iff.symm

/-- What holds of all tags inside a value holds of those inside its parts. -/
theorem OnlyFunctions.part {part : Value} (h : v.OnlyFunctions) (hpart : part ∈ v.parts) :
    part.OnlyFunctions :=
  fun tag content hwithin => h tag content (.part hpart hwithin)

/-! ## What functions stand for -/

mutual

/-- A value with its functions spelled out from the inside out. What stands under a tag is its text
when it is a scalar. A function becomes the mapping from its key to what stands under it, and a tag
that says nothing gives way to it. Mappings are built anew from their entries. -/
def spelledOut : Value → Value
  | .tagged tag content =>
    let operand :=
      if content.isScalar then .string content.operandText else content.spelledOut
    if tag.isFunction then function tag.name operand else operand
  | .mapping entries => .mapping (Entries.ofList (spelledOutEntries entries))
  | .sequence items => .sequence (spelledOutItems items)
  | scalar => scalar
termination_by structural value => value

def spelledOutItems : List Value → List Value
  | [] => []
  | item :: items => item.spelledOut :: spelledOutItems items
termination_by structural items => items

def spelledOutEntries : List (Value × Value) → List (Value × Value)
  | [] => []
  | (key, value) :: entries => (key.spelledOut, value.spelledOut) :: spelledOutEntries entries
termination_by structural entries => entries

end

theorem spelledOutItems_eq_map (items : List Value) :
    spelledOutItems items = items.map spelledOut := by
  induction items with
  | nil => rfl
  | cons item items ih => rw [spelledOutItems, ih, List.map_cons]

theorem spelledOutEntries_eq (entries : Entries) :
    spelledOutEntries entries = pairs ((mapping entries).parts.map spelledOut) := by
  induction entries with
  | nil => rfl
  | cons entry entries ih =>
    rw [spelledOutEntries, ih]
    rfl

/-- A value without a tag is spelled out part by part. It has the form of `resolved_of_not_tagged`,
with no failures in it. -/
theorem spelledOut_of_not_tagged (h : v.isTagged = false) :
    v.spelledOut = v.withParts (v.parts.map spelledOut) := by
  cases v with
  | sequence items =>
    rw [spelledOut, spelledOutItems_eq_map]
    rfl
  | mapping entries =>
    rw [spelledOut, spelledOutEntries_eq]
    rfl
  | tagged tag content => cases h
  | _ => rfl

/-! ## Resolving -/

/-- The node of a function, or of a tag that says nothing, is resolved to what stands under it: the
text of a scalar, and otherwise what this is resolved to. A function puts it under its key. No
resolver has a say in this node, so neither has any file or variable. -/
theorem resolved_functionNode (hnode : isFunctionNode tag content = true) :
    resolved r (.tagged tag content) =
      (fun operand => if tag.isFunction then function tag.name operand else operand) <$>
        (if content.isScalar then .ok (.string content.operandText) else resolved r content) := by
  rw [resolved_tagged]
  cases hspecific : tag.isNonSpecific with
  | true =>
    have hfunction := Tag.not_isFunction_of_isNonSpecific hspecific
    cases content <;> simp [Resolver.demand, hspecific, hfunction, isScalar]
  | false =>
    obtain ⟨hfunction, hcontent⟩ : tag.isFunction = true ∧ content.isTagged = false := by
      simpa [isFunctionNode, hspecific] using hnode
    have htag := Tag.ofTag?_of_isFunction hfunction
    cases content with
    | tagged _ _ => cases hcontent
    | _ => simp [Resolver.demand, hspecific, hfunction, htag, isScalar]

/-- A value whose tags are functions is spelled out by resolving it, whatever it is resolved with.
The induction is on the parts, with the node on top as the only case that differs. -/
theorem resolved_of_onlyFunctions (h : v.OnlyFunctions) : resolved r v = .ok v.spelledOut := by
  induction v using parts_induction with
  | step v ih =>
    cases htag : v.isTagged with
    | false =>
      have hparts : v.parts.mapM (resolved r) = .ok (v.parts.map spelledOut) := by
        rw [mapM_eq_ok, List.forall₂_map_right_iff, List.forall₂_same]
        exact fun part hpart => ih part hpart (h.part hpart)
      rw [resolved_of_not_tagged htag, spelledOut_of_not_tagged htag, hparts]
      rfl
    | true =>
      cases v with
      | tagged tag content =>
        have hcontent := ih content List.mem_cons_self (h.part List.mem_cons_self)
        rw [resolved_functionNode (h tag content (.self _)), hcontent, spelledOut]
        cases content.isScalar <;> rfl
      | _ => cases htag

end Value

end YamlWeave
