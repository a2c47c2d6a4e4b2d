import YamlWeave.Loader

/-!
# Documents of a type

A `Codec` reads a value as something of a given type and writes it back as a value. Reading says
what it found when the value is of another type, and of several faults it tells the first one in the
order of the document.

Null stands for an empty list, an empty table and a record without fields.
-/

set_option autoImplicit false

namespace YamlWeave

/-- Floating-point numbers in messages are written out in full. -/
def Mismatch.layout : Decimal.Layout :=
  ⟨.up, none, "NaN", "inf", "-inf"⟩

namespace Value

def described : Value → String
  | .null => "unit value"
  | .bool b => if b then "boolean `true`" else "boolean `false`"
  | .number (.int i) => "integer `" ++ (Number.int i).text ++ "`"
  | .number (.float x) => "floating point `" ++ Mismatch.layout.write x ++ "`"
  | .string s => "string " ++ Text.quoted s
  | .sequence _ => "sequence"
  | .mapping _ => "map"
  | .tagged _ _ => "enum"

/-- The mismatch of a value that is not what is expected. -/
def isNot (value : Value) (expected : String) : Mismatch :=
  .wrongType value.described expected

end Value

/-- How something is read from a value and written as one. -/
structure Codec (α : Type) where
  decode : Value → Except Mismatch α
  encode : α → Value

namespace Codec

def value : Codec Value := ⟨.ok, id⟩

def bool : Codec Bool where
  decode
    | .bool b => .ok b
    | other => .error (other.isNot "a boolean")
  encode := .bool

def string : Codec String where
  decode
    | .string s => .ok s
    | other => .error (other.isNot "a string")
  encode := .string

/-- The least whole number of 64 bits with a sign. -/
def leastInt : Int := -Int.pow 2 63

/-- The greatest whole number of 64 bits with a sign. -/
def greatestInt : Int := Int.pow 2 63 - 1

/-- A whole number of 64 bits with a sign. -/
def int : Codec Int where
  decode
    | .number (.int i) =>
      if leastInt ≤ i ∧ i ≤ greatestInt then .ok i
      else .error (.outOfRange (Value.int i).described "i64")
    | other => .error (other.isNot "i64")
  encode := .int

/-- A list of things that have a codec. -/
def list {α : Type} (element : Codec α) : Codec (List α) where
  decode
    | .null => .ok []
    | .sequence items => items.mapM element.decode
    | other => .error (other.isNot "a sequence")
  encode items := .sequence (items.map element.encode)

/-- Whether a name stands before another one or equals it: names are ordered by their bytes, which
is the order of their characters. -/
def nameOrder {α : Type} (a b : String × α) : Bool :=
  a.1 ≤ b.1

/-- A table from names to things that have a codec, in the order of the names. -/
def table {α : Type} (element : Codec α) : Codec (List (String × α)) where
  decode
    | .null => .ok []
    | .mapping entries => do
      let rows ← entries.mapM fun (key, value) => do
        let name ← string.decode key
        return (name, ← element.decode value)
      return rows.mergeSort nameOrder
    | other => .error (other.isNot "a map")
  encode rows := .mapping (rows.map fun (name, thing) => (.string name, element.encode thing))

/-- Either null or something that has a codec. -/
def optional {α : Type} (inner : Codec α) : Codec (Option α) where
  decode
    | .null => .ok none
    | other => do return some (← inner.decode other)
  encode thing := thing.elim .null inner.encode

def path : Codec Path where
  decode
    | .string s => .ok ⟨s⟩
    | other => .error (other.isNot "path string")
  encode p := .string p.text

def field (key : Value) : Except Mismatch String :=
  match key with
  | .string name => .ok name
  | other => .error (other.isNot "field identifier")

/-- Reads the fields of a record one after the other. -/
def readFields {α : Type} (record : String) (start : α)
    (read : α → String → Value → Except Mismatch α) (value : Value) : Except Mismatch α :=
  match value with
  | .null => .ok start
  | .mapping entries =>
    entries.foldlM (fun done (key, value) => do read done (← field key) value) start
  | other => .error (other.isNot ("struct " ++ record))

/-- Options, as a record of `root` and `merge_keys`. Other fields do not count. -/
def options : Codec Options where
  decode := readFields "LoaderOptions" Options.standard fun options name value =>
    match name with
    | "root" => do return { options with root := ← (optional path).decode value }
    | "merge_keys" => do return { options with mergeKeys := ← bool.decode value }
    | _ => .ok options
  encode options := .mapping
    [(.string "root", (optional path).encode options.root),
      (.string "merge_keys", bool.encode options.mergeKeys)]

end Codec

/-- A stack: a name and whatever its bucket is. -/
structure Stack where
  name : String
  bucket : Value

namespace Codec

/-- A stack, as a record of `name` and `bucket`. Both have to be there, and other fields do not
count. -/
def stack : Codec Stack where
  decode value := do
    let (name, bucket) ← readFields "Stack" (none, none)
      (fun (name, bucket) field value =>
        match field with
        | "name" => do return (some (← string.decode value), bucket)
        | "bucket" => .ok (name, some value)
        | _ => .ok (name, bucket)) value
    match name, bucket with
    | none, _ => .error (.missingField "name")
    | _, none => .error (.missingField "bucket")
    | some name, some bucket => .ok ⟨name, bucket⟩
  encode stack := .mapping
    [(.string "name", .string stack.name), (.string "bucket", stack.bucket)]

end Codec

/-- The document of a source, loaded in the standard way and read as something of a type. -/
def loadAs {α : Type} (w : World) (codec : Codec α) (source : Source) : Except Failure α := do
  (codec.decode (← load w .standard source)).mapError (.mistyped source.name)

end YamlWeave
