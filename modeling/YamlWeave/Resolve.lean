import YamlWeave.Failure
import YamlWeave.Value.Basic

/-!
# Tags and what takes their place

The tags that a document may use, how the documents that one node includes are put together, and how
every node with a tag gives way to what its tag calls for.
-/

set_option autoImplicit false

/-!
## Tags and their handlers

The fixed set of tags that a document may use, and what becomes of a node under each: another
document, the value of a variable, or a mapping that names a function.
-/

namespace YamlWeave

/-- What becomes of a node under a tag. -/
inductive Handler where
  /-- The node names files, whose documents take its place. -/
  | inclusion
  /-- The node names a variable, whose value takes its place. -/
  | environment
  /-- The node is the operand of a function. A mapping that names the function takes its place. -/
  | function (name : String)
deriving DecidableEq

namespace Handler

def functions : List String :=
  ["Ref", "Base64", "Cidr", "FindInMap", "GetAtt", "GetAZs", "ImportValue", "Join", "Select",
    "Split", "Sub", "Transform", "And", "Equals", "If", "Not", "Or"]

/-- What the key of every function starts with. -/
def functionKeyStart : String := "Fn::"

/-- The key under which a function keeps its operand. -/
def functionKey (name : String) : String :=
  functionKeyStart ++ name

/-- All tags, with their exclamation marks, and their handlers. -/
def table : List (String × Handler) :=
  ("!include", .inclusion) :: ("!import", .inclusion) :: ("!env", .environment) ::
    functions.map fun name => ("!" ++ name, .function name)

/-- The handler of a tag that is written with its exclamation mark. -/
def ofTag? (tag : String) : Option Handler :=
  table.lookup tag

end Handler

/-!
## Putting included documents together

Documents that one node includes have to be of one kind. Sequences become the elements of a new
sequence, also when there is only one. Mappings are laid over one another, so that later documents
win. Scalars cannot be put together.
-/

namespace Value

/-- The kind of a document. A tagged value counts as a scalar. -/
def kind : Value → Kind
  | .sequence _ => .sequence
  | .mapping _ => .mapping
  | _ => .scalar

/-- The entries of a mapping, and none of anything else. -/
def entries : Value → Entries
  | .mapping entries => entries
  | _ => []

end Value

namespace Include

/-- The documents of included files, put together. The files stand in the order in which they are
included. -/
def joined (documents : List (Path × Value)) : Except Failure Value :=
  match documents with
  | [] => .error .emptyInclude
  | (path, first) :: _ =>
    match documents.find? (·.2.kind != first.kind) with
    | some (path, other) => .error (.mixedInclude first.kind other.kind path)
    | none =>
      match first.kind with
      | .sequence => .ok (.sequence (documents.map (·.2)))
      | .mapping =>
        .ok (.mapping (documents.foldl
          (fun (merged : Entries) document => merged.insertAll document.2.entries) []))
      | .scalar => .error (.scalarInclude path)

end Include

/-!
## Resolving tags

Every node with a tag gives way to what its handler makes of it, from the outside in: included
documents, values of variables and mappings that name functions. Entries and elements are resolved
from left to right, a key before its value, and the first failure ends the work. Mappings are built
anew, because different keys may have become one.

What lies outside of the document is passed in by a `Resolver`.
-/

structure Resolver where
  /-- The directory from which names of files start. -/
  root : Path
  valueOf? : String → Option String
  load : Path → Except Failure Value

namespace Value

/-- What a scalar is where only text counts: the empty text for null, otherwise its own. -/
def operandText (scalar : Value) : String :=
  scalar.scalarText?.getD ""

/-- The name of a file that a node gives. -/
def fileName (node : Value) : Except Failure String :=
  match node.scalarText? with
  | some name => .ok name
  | none => .error (.wrongFileName node.written "path must be a scalar")

/-- The names of the files that an operand lists. -/
def fileNames : Value → Except Failure (List String)
  | .sequence nodes => nodes.mapM fileName
  | node => do return [← node.fileName]

/-- The mapping that names a function and holds its operand. -/
def function (name : String) (operand : Value) : Value :=
  .mapping [(.string (Handler.functionKey name), operand)]

end Value

namespace Resolver

/-- The path that the name of a file stands for. -/
def pathOf (r : Resolver) (name : String) : Path :=
  r.root / ⟨name⟩

/-- The document of a file beside its path. -/
def loadNamed (r : Resolver) (path : Path) : Except Failure (Path × Value) := do
  return (path, ← r.load path)

/-- What takes the place of a node that includes files. All names are read before a file is. -/
def included (r : Resolver) (operand : Value) : Except Failure Value := do
  let names ← operand.fileNames
  Include.joined (← (names.map r.pathOf).mapM r.loadNamed)

/-- What takes the place of a node that names a variable. Null names none, with or without a tag in
front of it. -/
def environment (r : Resolver) (tag : Tag) (operand : Value) : Except Failure Value :=
  if operand.isNull then .ok .null
  else
    match operand.scalarText? with
    | some name => .ok ((r.valueOf? name).elim .null .string)
    | none => .error (.wrongOperand tag.text "environment variable name must be a scalar")

end Resolver

namespace Value

mutual

/-- A value with all its tags resolved. -/
def resolved (r : Resolver) : Value → Except Failure Value
  | .tagged tag content =>
    if tag.isNonSpecific then
      match content with
      | .sequence items => do return .sequence (← resolvedItems r items)
      | .mapping entries => do return .mapping (Entries.ofList (← resolvedEntries r entries))
      | .tagged tag content => resolved r (.tagged tag content)
      | scalar => .ok (.string scalar.operandText)
    else
      match Handler.ofTag? tag.text with
      | some .inclusion => r.included content
      | some .environment => r.environment tag content
      | some (.function name) =>
        match content with
        | .sequence items => do return function name (.sequence (← resolvedItems r items))
        | .mapping entries => do
          return function name (.mapping (Entries.ofList (← resolvedEntries r entries)))
        | .tagged _ _ => .error (.malformedTag tag.text)
        | scalar => .ok (function name (.string scalar.operandText))
      | none => .error (.unknownTag tag.text)
  | .mapping entries => do return .mapping (Entries.ofList (← resolvedEntries r entries))
  | .sequence items => do return .sequence (← resolvedItems r items)
  | scalar => .ok scalar
termination_by structural value => value

/-- The elements of a sequence with all their tags resolved. -/
def resolvedItems (r : Resolver) : List Value → Except Failure (List Value)
  | [] => .ok []
  | item :: items => do
    let item ← resolved r item
    return item :: (← resolvedItems r items)
termination_by structural items => items

/-- The entries of a mapping with all the tags in their keys and values resolved. Keys may have
become the same. -/
def resolvedEntries (r : Resolver) : List (Value × Value) → Except Failure (List (Value × Value))
  | [] => .ok []
  | (key, value) :: entries => do
    let key ← resolved r key
    let value ← resolved r value
    return (key, value) :: (← resolvedEntries r entries)
termination_by structural entries => entries

end

end Value

end YamlWeave
