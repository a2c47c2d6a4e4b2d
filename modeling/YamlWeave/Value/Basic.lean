import YamlWeave.Decimal
import YamlWeave.Text

/-!
# Values

What a document holds. A mapping is the list of its entries in their own order. `Value.same` is the
equality that decides which keys of a mapping are one key: it looks at mappings without regard to
order, at numbers by kind and size, and at tags by their names.
-/

set_option autoImplicit false

namespace YamlWeave

/-- A number: whole or floating-point. A whole number and a floating-point number never are the
same. -/
inductive Number where
  | int (i : Int)
  | float (x : Double)
deriving DecidableEq

namespace Number

def same : Number → Number → Bool
  | .int i, .int j => i == j
  | .float x, .float y => x.same y
  | _, _ => false

end Number

/-- A local tag. `name` is what stands after its exclamation mark. -/
structure Tag where
  name : String
deriving DecidableEq

namespace Tag

/-- A name without the exclamation mark in front of it. A lone exclamation mark stays. -/
def dropMark (name : List Char) : List Char :=
  match name with
  | '!' :: c :: rest => c :: rest
  | _ => name

/-- The tag that is written as an exclamation mark and this text. One exclamation mark in front of
the text does not count, unless it is the whole text. -/
def ofText (text : String) : Tag :=
  ⟨String.ofList (dropMark text.toList)⟩

def text (tag : Tag) : String :=
  "!" ++ tag.name

/-- Whether the tag consists of exclamation marks. It then says only that its node has no tag of its
own. -/
def isNonSpecific (tag : Tag) : Bool :=
  tag.name.toList.all (· == '!')

end Tag

inductive Value where
  | null
  | bool (b : Bool)
  | number (n : Number)
  | string (s : String)
  | sequence (items : List Value)
  | mapping (entries : List (Value × Value))
  | tagged (tag : Tag) (content : Value)

abbrev Entries := List (Value × Value)

namespace Value

mutual

/-- Whether two values are the same as keys. -/
def same : Value → Value → Bool
  | .null, .null => true
  | .bool b, .bool c => b == c
  | .number m, .number n => m.same n
  | .string s, .string t => s == t
  | .sequence items, .sequence others => sameItems items others
  | .mapping entries, .mapping others =>
    entries.length == others.length && sameEntries entries others
  | .tagged tag content, .tagged other otherContent => tag == other && same content otherContent
  | _, _ => false
termination_by structural value => value

/-- Whether two lists hold the same values in the same order. -/
def sameItems : List Value → List Value → Bool
  | [], [] => true
  | item :: items, other :: others => same item other && sameItems items others
  | _, _ => false
termination_by structural items => items

/-- Whether every entry has the same value under the same key among other entries. -/
def sameEntries : List (Value × Value) → List (Value × Value) → Bool
  | [], _ => true
  | (key, value) :: entries, others =>
    (match others.find? (fun other => same key other.1) with
      | some (_, other) => same value other
      | none => false) && sameEntries entries others
termination_by structural entries => entries

end

def int (i : Int) : Value := .number (.int i)

def float (x : Double) : Value := .number (.float x)

end Value

end YamlWeave

/-!
## Entries of a mapping

Entries keep the order in which their keys were first put in. Keys are compared by `Value.same`.
-/

namespace YamlWeave.Entries

def get? (key : Value) (entries : Entries) : Option Value :=
  (entries.find? (fun entry => key.same entry.1)).map (·.2)

def contains (key : Value) (entries : Entries) : Bool :=
  entries.any (fun entry => key.same entry.1)

/-- Puts a value under a key. A key that occurs keeps its place and its spelling; another one comes
last. -/
def insert (key value : Value) : Entries → Entries
  | [] => [(key, value)]
  | (k, v) :: rest =>
    if key.same k then (k, value) :: rest else (k, v) :: insert key value rest

def insertAll (entries additions : Entries) : Entries :=
  additions.foldl (fun entries entry => insert entry.1 entry.2 entries) entries

/-- Entries put in one after the other, starting from none. -/
def ofList (entries : List (Value × Value)) : Entries :=
  insertAll [] entries

/-- Appends those entries whose keys do not occur yet. -/
def addMissing (entries additions : Entries) : Entries :=
  additions.foldl
    (fun entries entry => if contains entry.1 entries then entries else entries ++ [entry]) entries

/-- The last entry, then the others in order: what is left when the first place falls free and the
last entry moves there. -/
def lastToFront (entries : Entries) : Entries :=
  match entries.getLast? with
  | some last => last :: entries.dropLast
  | none => []

/-- Takes the entry with a key out. Gives its value and the other entries, of which the last one
moves to the free place. -/
def takeOut? (key : Value) : Entries → Option (Value × Entries)
  | [] => none
  | (k, v) :: rest =>
    if key.same k then some (v, lastToFront rest)
    else (takeOut? key rest).map fun (value, left) => (value, (k, v) :: left)

end YamlWeave.Entries

/-!
## Numbers as text

The text of a number, which is also what a tag gets that takes its operand as text.
-/

namespace YamlWeave

/-- Floating-point numbers are written out from 0.00001 to 16 digits before the point, and otherwise
with an exponent. -/
def Double.layout : Decimal.Layout :=
  ⟨.even, some (-5, 16), ".nan", ".inf", "-.inf"⟩

namespace Number

def text : Number → String
  | .int i => toString i
  | .float x => Double.layout.write x

end Number

namespace Value

/-- Whether a value is null. A tag in front of it does not count. -/
def isNull : Value → Bool
  | .null => true
  | .tagged _ content => content.isNull
  | _ => false

/-- The text of a string, a number or a truth value. -/
def scalarText? : Value → Option String
  | .string s => some s
  | .number n => some n.text
  | .bool b => some (if b then "true" else "false")
  | _ => none

end Value

end YamlWeave

/-!
## Values written out

The notation for values in messages. Every value but null names its kind. Strings, numbers and truth
values that are keys stand alone.
-/

namespace YamlWeave.Value

/-- A key that stands without its kind. -/
def bareKey? : Value → Option String
  | .bool b => some (if b then "true" else "false")
  | .number n => some n.text
  | .string s => some (Text.quoted s)
  | _ => none

mutual

def written : Value → String
  | .null => "Null"
  | .bool b => if b then "Bool(true)" else "Bool(false)"
  | .number n => "Number(" ++ n.text ++ ")"
  | .string s => "String(" ++ Text.quoted s ++ ")"
  | .sequence items => "Sequence [" ++ ", ".intercalate (writtenItems items) ++ "]"
  | .mapping entries =>
    "Mapping \x7b" ++ ", ".intercalate (writtenEntries entries) ++ "\x7d"
  | .tagged tag content =>
    "TaggedValue \x7b tag: " ++ tag.text ++ ", value: " ++ content.written ++ " \x7d"
termination_by structural value => value

def writtenItems : List Value → List String
  | [] => []
  | item :: items => item.written :: writtenItems items
termination_by structural items => items

def writtenEntries : List (Value × Value) → List String
  | [] => []
  | (key, value) :: entries =>
    ((bareKey? key).getD key.written ++ ": " ++ value.written) :: writtenEntries entries
termination_by structural entries => entries

end

end YamlWeave.Value
