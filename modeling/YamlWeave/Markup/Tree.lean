import YamlWeave.Markup.Lexer

/-!
# The tree of a text

The nodes that a text describes, the grammar by which tokens become nodes, and what anchors and
aliases refer to.
-/

set_option autoImplicit false

/-!
## Nodes

The tree that a text describes before aliases are followed and scalars are given their kinds. `α` is
what anchors and aliases are known by: their names at first, later the places that the names stand
for.
-/

namespace YamlWeave.Markup

/-- What may stand in front of a node. -/
structure Properties (α : Type) where
  anchor : Option α
  /-- The tag, as bytes, once its handle is replaced by what the handle stands for. -/
  tag : Option (List UInt8)
deriving DecidableEq

namespace Properties

def none {α : Type} : Properties α := ⟨.none, .none⟩

end Properties

inductive Node (α : Type) where
  | alias (target : α)
  | scalar (properties : Properties α) (plain : Bool) (text : String)
  | sequence (properties : Properties α) (items : List (Node α))
  | mapping (properties : Properties α) (entries : List (Node α × Node α))

namespace Node

variable {α : Type}

/-- A scalar that is not written at all. -/
def absent (properties : Properties α) : Node α :=
  .scalar properties true ""

/-- A mapping that has one entry and nothing in front of it. -/
def pair (key value : Node α) : Node α :=
  .mapping Properties.none [(key, value)]

mutual

/-- The length of a tree: one for a scalar or an alias, and for a collection one for each of its
ends besides what it holds. -/
def length : Node α → Nat
  | .alias _ => 1
  | .scalar _ _ _ => 1
  | .sequence _ items => lengthItems items + 2
  | .mapping _ entries => lengthEntries entries + 2
termination_by structural node => node

/-- The length of the elements of a sequence. -/
def lengthItems : List (Node α) → Nat
  | [] => 0
  | node :: nodes => node.length + lengthItems nodes
termination_by structural nodes => nodes

/-- The length of the entries of a mapping. -/
def lengthEntries : List (Node α × Node α) → Nat
  | [] => 0
  | (key, value) :: entries => key.length + value.length + lengthEntries entries
termination_by structural entries => entries

end

end Node

/-!
## From tokens to a tree

The grammar of documents, by one function for each kind of node. Each function takes the tokens from
where its node starts and gives the node and the tokens after it. A text is read as one document; a
second one, and anything else after the first, is refused.

Every function carries a bound on the depth of its calls. Two calls in a row take a token between
them, so twice the number of tokens is never reached.
-/

/-- What the handles of tags stand for in a document. -/
abbrev Handles := List (String × List UInt8)

namespace Handles

/-- What handles stand for unless a directive says otherwise. -/
def standard : Handles :=
  [("!", [0x21]), ("!!", "tag:yaml.org,2002:".toUTF8.toList)]

/-- The whole tag that a handle and a suffix write. The handle has to stand for something. -/
def complete? (handles : Handles) (handle : String) (suffix : List UInt8) : Option (List UInt8) :=
  if handle.isEmpty then some suffix else (handles.lookup handle).map (· ++ suffix)

end Handles

namespace Tree

/-- Nodes that anchors and aliases name. -/
abbrev Named := Node String

/-- The properties in front of a node: an anchor and a tag, each at most once, in either order. -/
def properties? (handles : Handles) : List Token → Option (Properties String × List Token)
  | .anchor name :: .tag handle suffix :: rest
  | .tag handle suffix :: .anchor name :: rest => do
    some (⟨some name, some (← handles.complete? handle suffix)⟩, rest)
  | .anchor name :: rest => some (⟨some name, none⟩, rest)
  | .tag handle suffix :: rest => do some (⟨none, some (← handles.complete? handle suffix)⟩, rest)
  | rest => some (Properties.none, rest)

/-- Whether an element that is due is not written: the next one follows, or the sequence ends. -/
def missesItem : List Token → Bool
  | .blockEntry :: _ | .blockEnd :: _ => true
  | _ => false

/-- Whether a node of a block mapping that is due is not written. -/
def missesPart : List Token → Bool
  | .key :: _ | .value :: _ | .blockEnd :: _ => true
  | _ => false

/-- Whether a node of an entry inside braces that is due is not written. -/
def missesInBraces : List Token → Bool
  | .value :: _ | .flowEntry :: _ | .flowMappingEnd :: _ => true
  | _ => false

/-- Whether a node of an entry inside brackets that is due is not written. -/
def missesInBrackets : List Token → Bool
  | .value :: _ | .flowEntry :: _ | .flowSequenceEnd :: _ => true
  | _ => false

mutual

/-- A node. Block collections may start only where `block` says so, and a sequence that is not
indented further than the mapping around it only where `indentless` says so. -/
def node? (handles : Handles) (bound : Nat) (block indentless : Bool) (tokens : List Token) :
    Option (Named × List Token) :=
  match bound with
  | 0 => none
  | bound + 1 =>
    match tokens with
    | .alias name :: rest => some (.alias name, rest)
    | _ => do
      let (properties, rest) ← properties? handles tokens
      match rest with
      | .scalar plain text :: rest => some (.scalar properties plain text, rest)
      | .blockEntry :: _ =>
        if indentless then do
          let (items, rest) ← indentlessItems? handles bound rest
          some (.sequence properties items, rest)
        else absent? properties rest
      | .flowSequenceStart :: rest => do
        let (items, rest) ← bracketItems? handles bound true rest
        some (.sequence properties items, rest)
      | .flowMappingStart :: rest => do
        let (entries, rest) ← braceEntries? handles bound true rest
        some (.mapping properties entries, rest)
      | .blockSequenceStart :: rest' =>
        if block then do
          let (items, rest) ← blockItems? handles bound rest'
          some (.sequence properties items, rest)
        else absent? properties rest
      | .blockMappingStart :: rest' =>
        if block then do
          let (entries, rest) ← blockEntries? handles bound rest'
          some (.mapping properties entries, rest)
        else absent? properties rest
      | rest => absent? properties rest
termination_by structural bound
where
  /-- A node that is not written. Something has to stand in front of it. -/
  absent? (properties : Properties String) (rest : List Token) : Option (Named × List Token) :=
    if properties.anchor.isSome || properties.tag.isSome then some (.absent properties, rest)
    else none

/-- The elements of an indented block sequence, up to its end. -/
def blockItems? (handles : Handles) (bound : Nat) (tokens : List Token) :
    Option (List Named × List Token) :=
  match bound with
  | 0 => none
  | bound + 1 =>
    match tokens with
    | .blockEntry :: rest => do
      let (item, rest) ←
        if missesItem rest then some (Node.absent Properties.none, rest)
        else node? handles bound true false rest
      let (items, rest) ← blockItems? handles bound rest
      some (item :: items, rest)
    | .blockEnd :: rest => some ([], rest)
    | _ => none
termination_by structural bound

/-- The elements of a block sequence that is not indented. It ends where no hyphen follows. -/
def indentlessItems? (handles : Handles) (bound : Nat) (tokens : List Token) :
    Option (List Named × List Token) :=
  match bound with
  | 0 => none
  | bound + 1 =>
    match tokens with
    | .blockEntry :: rest => do
      let (item, rest) ←
        if missesItem rest || missesPart rest then some (Node.absent Properties.none, rest)
        else node? handles bound true false rest
      let (items, rest) ← indentlessItems? handles bound rest
      some (item :: items, rest)
    | rest => some ([], rest)
termination_by structural bound

/-- The entries of a block mapping, up to its end. -/
def blockEntries? (handles : Handles) (bound : Nat) (tokens : List Token) :
    Option (List (Named × Named) × List Token) :=
  match bound with
  | 0 => none
  | bound + 1 =>
    match tokens with
    | .key :: rest => do
      let (key, rest) ←
        if missesPart rest then some (Node.absent Properties.none, rest)
        else node? handles bound true true rest
      let (value, rest) ←
        match rest with
        | .value :: rest =>
          if missesPart rest then some (Node.absent Properties.none, rest)
          else node? handles bound true true rest
        | rest => some (Node.absent Properties.none, rest)
      let (entries, rest) ← blockEntries? handles bound rest
      some ((key, value) :: entries, rest)
    | .blockEnd :: rest => some ([], rest)
    | _ => none
termination_by structural bound

/-- The elements inside brackets, up to the closing one. An entry with a key makes a mapping of its
own. A key that is not written takes the token in its place with it. -/
def bracketItems? (handles : Handles) (bound : Nat) (first : Bool) (tokens : List Token) :
    Option (List Named × List Token) :=
  match bound with
  | 0 => none
  | bound + 1 =>
    match tokens with
    | .flowSequenceEnd :: rest => some ([], rest)
    | _ => do
      let tokens ←
        if first then some tokens
        else match tokens with
          | .flowEntry :: rest => some rest
          | _ => none
      match tokens with
      | .flowSequenceEnd :: rest => some ([], rest)
      | .key :: rest => do
        let (key, rest) ←
          if missesInBrackets rest then some (Node.absent Properties.none, rest.drop 1)
          else node? handles bound false false rest
        let (value, rest) ←
          match rest with
          | .value :: rest =>
            match rest with
            | .flowEntry :: _ | .flowSequenceEnd :: _ => some (Node.absent Properties.none, rest)
            | _ => node? handles bound false false rest
          | rest => some (Node.absent Properties.none, rest)
        let (items, rest) ← bracketItems? handles bound false rest
        some (Node.pair key value :: items, rest)
      | tokens => do
        let (item, rest) ← node? handles bound false false tokens
        let (items, rest) ← bracketItems? handles bound false rest
        some (item :: items, rest)
termination_by structural bound

/-- The entries inside braces, up to the closing one. An entry without a key mark is a key alone. -/
def braceEntries? (handles : Handles) (bound : Nat) (first : Bool) (tokens : List Token) :
    Option (List (Named × Named) × List Token) :=
  match bound with
  | 0 => none
  | bound + 1 =>
    match tokens with
    | .flowMappingEnd :: rest => some ([], rest)
    | _ => do
      let tokens ←
        if first then some tokens
        else match tokens with
          | .flowEntry :: rest => some rest
          | _ => none
      match tokens with
      | .flowMappingEnd :: rest => some ([], rest)
      | .key :: rest => do
        let (key, rest) ←
          if missesInBraces rest then some (Node.absent Properties.none, rest)
          else node? handles bound false false rest
        let (value, rest) ←
          match rest with
          | .value :: rest =>
            match rest with
            | .flowEntry :: _ | .flowMappingEnd :: _ => some (Node.absent Properties.none, rest)
            | _ => node? handles bound false false rest
          | rest => some (Node.absent Properties.none, rest)
        let (entries, rest) ← braceEntries? handles bound false rest
        some ((key, value) :: entries, rest)
      | tokens => do
        let (key, rest) ← node? handles bound false false tokens
        let (entries, rest) ← braceEntries? handles bound false rest
        some ((key, Node.absent Properties.none) :: entries, rest)
termination_by structural bound

end

/-! ### Documents -/

/-- Reads the directives in front of a document. The version is given at most once and is 1.1 or
1.2, and each handle is given at most once. -/
def directives? (versioned : Bool) (handles : Handles) :
    List Token → Option (Handles × List Token)
  | .version major minor :: rest =>
    if versioned || major != 1 || (minor != 1 && minor != 2) then none
    else directives? true handles rest
  | .tagHandle handle standsFor :: rest =>
    if (handles.lookup handle).isSome then none
    else directives? versioned (handles ++ [(handle, standsFor)]) rest
  | rest => some (handles, rest)

/-- Whether the content of a document that was opened by a mark is not written. -/
def missesContent : List Token → Bool
  | [] => true
  | .version _ _ :: _ | .tagHandle _ _ :: _ | .documentStart :: _ | .documentEnd :: _ => true
  | _ => false

/-- Whether a document starts here by a directive or a mark. -/
def startsExplicitly : List Token → Bool
  | .version _ _ :: _ | .tagHandle _ _ :: _ | .documentStart :: _ => true
  | _ => false

/-- The root of a document and the tokens after it. -/
def root? (tokens : List Token) : Option (Named × List Token) := do
  let bound (tokens : List Token) : Nat := 2 * tokens.length + 2
  if startsExplicitly tokens then
    let (given, rest) ← directives? false [] tokens
    match rest with
    | .documentStart :: rest =>
      if missesContent rest then some (Node.absent Properties.none, rest)
      else node? (given ++ Handles.standard) (bound rest) true false rest
    | _ => none
  else node? Handles.standard (bound tokens) true false tokens

/-- Whether only closing document marks are left. -/
def isFinished (tokens : List Token) : Bool :=
  tokens.all (· == .documentEnd)

end Tree

/-- What a text holds: nothing, or one document. -/
inductive Content where
  | nothing
  | document (root : Node String)

/-- The content of a text, or `none` when the text is not well formed. -/
def content? (text : String) : Option Content := do
  let tokens ← tokens? text
  if tokens.isEmpty then some .nothing
  else
    let (root, rest) ← Tree.root? tokens
    if Tree.isFinished rest then some (.document root) else none

/-!
## Anchors and the nodes they name

An anchor gives its node a **slot**, and an alias means whatever node the slot holds at the end of
the document. A new anchor takes as its slot the number of different names seen so far. A name that
is anchored again therefore moves to another slot, which a later name may take over as well.
-/

/-- The place that an anchor gives to its node. -/
abbrev Slot := Nat

/-- The slots of the names seen so far. Every name occurs once. -/
abbrev Slots := List (String × Slot)

namespace Slots

/-- The slots once one more name is anchored. -/
def anchor (name : String) (slots : Slots) : Slots :=
  let slot := slots.length
  if (slots.lookup name).isSome then
    slots.map fun (other, s) => if other == name then (name, slot) else (other, s)
  else slots ++ [(name, slot)]

/-- The properties of a node with its anchor's name replaced by the slot, and the slots after it. -/
def enter (properties : Properties String) (slots : Slots) : Properties Slot × Slots :=
  match properties.anchor with
  | none => (⟨none, properties.tag⟩, slots)
  | some name => (⟨some slots.length, properties.tag⟩, slots.anchor name)

end Slots

namespace Node

mutual

/-- The tree with slots in place of names, and the slots after it. A name has to be anchored before
an alias uses it; a collection is anchored before what it holds. -/
def placed? (slots : Slots) : Node String → Option (Node Slot × Slots)
  | .alias name => (slots.lookup name).map fun slot => (.alias slot, slots)
  | .scalar properties plain text =>
    let (properties, slots) := slots.enter properties
    some (.scalar properties plain text, slots)
  | .sequence properties items =>
    let (properties, slots) := slots.enter properties
    (placedItems? slots items).map fun (items, slots) => (.sequence properties items, slots)
  | .mapping properties entries =>
    let (properties, slots) := slots.enter properties
    (placedEntries? slots entries).map fun (entries, slots) => (.mapping properties entries, slots)
termination_by structural node => node

/-- The elements of a sequence with slots in place of names. -/
def placedItems? (slots : Slots) : List (Node String) → Option (List (Node Slot) × Slots)
  | [] => some ([], slots)
  | node :: nodes => do
    let (node, slots) ← node.placed? slots
    let (nodes, slots) ← placedItems? slots nodes
    some (node :: nodes, slots)
termination_by structural nodes => nodes

/-- The entries of a mapping with slots in place of names. -/
def placedEntries? (slots : Slots) :
    List (Node String × Node String) → Option (List (Node Slot × Node Slot) × Slots)
  | [] => some ([], slots)
  | (key, value) :: entries => do
    let (key, slots) ← key.placed? slots
    let (value, slots) ← value.placed? slots
    let (entries, slots) ← placedEntries? slots entries
    some ((key, value) :: entries, slots)
termination_by structural entries => entries

end

/-- The anchored node itself, in front of others. -/
def noteAnchored (properties : Properties Slot) (node : Node Slot)
    (found : List (Slot × Node Slot)) : List (Slot × Node Slot) :=
  match properties.anchor with
  | some slot => (slot, node) :: found
  | none => found

mutual

/-- The anchored nodes of a tree in front of others, the last of them in the text first. -/
def anchored (found : List (Slot × Node Slot)) : Node Slot → List (Slot × Node Slot)
  | .alias _ => found
  | .scalar properties plain text => noteAnchored properties (.scalar properties plain text) found
  | .sequence properties items =>
    anchoredItems (noteAnchored properties (.sequence properties items) found) items
  | .mapping properties entries =>
    anchoredEntries (noteAnchored properties (.mapping properties entries) found) entries
termination_by structural node => node

/-- The anchored nodes among the elements of a sequence. -/
def anchoredItems (found : List (Slot × Node Slot)) : List (Node Slot) → List (Slot × Node Slot)
  | [] => found
  | node :: nodes => anchoredItems (node.anchored found) nodes
termination_by structural nodes => nodes

/-- The anchored nodes among the entries of a mapping. -/
def anchoredEntries (found : List (Slot × Node Slot)) :
    List (Node Slot × Node Slot) → List (Slot × Node Slot)
  | [] => found
  | (key, value) :: entries => anchoredEntries (value.anchored (key.anchored found)) entries
termination_by structural entries => entries

end

end Node

end YamlWeave.Markup
