import YamlWeave.Markup.Scalar
import YamlWeave.Markup.Tree
import YamlWeave.Value.Basic

/-!
# From a text to its value

What the scalars of a text mean, what a tag makes of its node, and how the value of a whole text is
put together from the tree that the text describes.
-/

set_option autoImplicit false

/-!
## What plain scalars mean

A plain scalar is null, a truth value, a whole number, a floating-point number or, failing all of
these, a string. Whole numbers fit 64 bits, with or without a sign. One that does not, but would fit
128 bits, is refused; a still larger one is read as a floating-point number. Digits after a leading
zero are a string.
-/

namespace YamlWeave.Plain

/-- Whether a scalar is one of the words for null. -/
def isNull (text : String) : Bool :=
  text == "null" || text == "Null" || text == "NULL" || text == "~"

def bool? (text : String) : Option Bool :=
  if text == "true" || text == "True" || text == "TRUE" then some true
  else if text == "false" || text == "False" || text == "FALSE" then some false
  else none

/-! ### Whole numbers -/

def withoutSign : List Char → List Char
  | '+' :: rest => rest
  | '-' :: rest => rest
  | text => text

/-- Whether a text is digits of which the first is a zero that does not stand alone. -/
def hasLeadingZero (text : List Char) : Bool :=
  match withoutSign text with
  | '0' :: rest => !rest.isEmpty && rest.all (·.isDigit)
  | _ => false

/-- The number that digits of a base up to sixteen write. There has to be one. -/
def readBase? (base : Nat) (text : List Char) : Option Nat :=
  if text.isEmpty then none
  else text.foldlM
    (fun n c => do
      let d ← Markup.hexDigit? c
      if d < base then some (n * base + d) else none) 0

/-- The number that decimal digits write. There has to be one. -/
def readDecimal? (text : List Char) : Option Nat :=
  if text.isEmpty || !text.all (·.isDigit) then none else some (Nat.ofDigitChars 10 text 0)

/-- The number that a text without a sign writes: after a mark for the base sixteen, eight or two,
or with decimal digits. -/
def magnitude? : List Char → Option Nat
  | '0' :: 'x' :: rest => readBase? 16 rest
  | '0' :: 'o' :: rest => readBase? 8 rest
  | '0' :: 'b' :: rest => readBase? 2 rest
  | text => if hasLeadingZero text then none else readDecimal? text

/-- The whole number that a text writes. -/
def int? : List Char → Option Int
  | '+' :: rest => (magnitude? rest).map Int.ofNat
  | '-' :: rest => (magnitude? rest).map fun n => -(n : Int)
  | text => (magnitude? text).map Int.ofNat

/-- Whether a number fits 64 bits, with or without a sign. -/
def fits (i : Int) : Bool :=
  -Int.pow 2 63 ≤ i && i < Int.pow 2 64

/-- Whether a number fits 128 bits, with or without a sign. -/
def fitsTwice (i : Int) : Bool :=
  -Int.pow 2 127 ≤ i && i < Int.pow 2 128

/-! ### Floating-point numbers -/

/-- The decimal digits in front of a text, and the rest. -/
def takeDigits (text : List Char) : List Char × List Char :=
  (text.takeWhile (·.isDigit), text.dropWhile (·.isDigit))

/-- An exponent, which may have a sign and has a digit. Nothing may follow. -/
def exponent? : List Char → Option Int
  | '+' :: rest => (readDecimal? rest).map Int.ofNat
  | '-' :: rest => (readDecimal? rest).map fun n => -(n : Int)
  | text => (readDecimal? text).map Int.ofNat

/-- The number that a decimal fraction without a plus sign writes: digits with at most one point
among them and at least one digit, then perhaps an exponent. -/
def decimal? (text : List Char) : Option Double :=
  let negative := text.head? == some '-'
  let text := if negative then text.drop 1 else text
  let (whole, rest) := takeDigits text
  let (fraction, rest) :=
    match rest with
    | '.' :: rest => takeDigits rest
    | rest => ([], rest)
  if whole.isEmpty && fraction.isEmpty then none
  else do
    let digits := Nat.ofDigitChars 10 (whole ++ fraction) 0
    let exponent ←
      match rest with
      | [] => some 0
      | c :: rest => if c == 'e' || c == 'E' then exponent? rest else none
    some (Double.ofDecimal negative digits (exponent - fraction.length))

/-- The floating-point number that a scalar writes. A number too large for the format is none. -/
def float? (text : String) : Option Double := do
  let unsigned ←
    match text.toList with
    | '+' :: '+' :: _ => none
    | '+' :: '-' :: _ => none
    | '+' :: rest => some rest
    | chars => some chars
  let word := String.ofList unsigned
  if word == ".inf" || word == ".Inf" || word == ".INF" then some (.infinite false)
  else if text == "-.inf" || text == "-.Inf" || text == "-.INF" then some (.infinite true)
  else if text == ".nan" || text == ".NaN" || text == ".NAN" then some .nan
  else
    match decimal? unsigned with
    | some (.finite s m e) => some (.finite s m e)
    | _ => none

/-! ### Scalars -/

/-- The value of a plain scalar. There is none for a whole number between 64 and 128 bits. -/
def value? (text : String) : Option Value :=
  if text.isEmpty || isNull text then some .null
  else match bool? text with
  | some b => some (.bool b)
  | none =>
    let chars := text.toList
    let other : Value :=
      if hasLeadingZero chars then .string text
      else match float? text with
        | some x => .float x
        | none => .string text
    match int? chars with
    | some i => if fits i then some (.int i) else if fitsTwice i then none else some other
    | none => some other

end YamlWeave.Plain

/-!
## Tags and scalars

What the tag in front of a node makes of it. A local tag stays with the value. A tag of the core set
forces the kind of a scalar. Any other tag makes a scalar a string and says nothing of a collection.
-/

namespace YamlWeave

/-- What the tag of a node asks for. -/
inductive TagUse where
  | none
  /-- The tag stays with the value. -/
  | keep (tag : Tag)
  /-- The tag is local, but its bytes are no text. It counts as no tag. -/
  | unreadable
  | bool
  | int
  | float
  | null
  | string
deriving DecidableEq

namespace TagUse

def coreTag (kind : String) : List UInt8 :=
  ("tag:yaml.org,2002:" ++ kind).toUTF8.toList

/-- What a tag asks for. A local tag is one that starts with an exclamation mark. -/
def ofBytes : Option (List UInt8) → TagUse
  | .none => .none
  | some bytes =>
    match bytes with
    | 0x21 :: rest =>
      match String.fromUTF8? ⟨(if rest.isEmpty then bytes else rest).toArray⟩ with
      | some text => .keep (Tag.ofText text)
      | .none => .unreadable
    | _ =>
      if bytes == coreTag "bool" then .bool
      else if bytes == coreTag "int" then .int
      else if bytes == coreTag "float" then .float
      else if bytes == coreTag "null" then .null
      else .string

/-- The value of a scalar without regard to its tag: what is written plainly gets a kind, the rest
is a string. -/
def untagged? (plain : Bool) (text : String) : Option Value :=
  if plain then Plain.value? text else some (.string text)

/-- The value of a scalar under a tag. A core tag needs a text of its kind. -/
def scalar? (use : TagUse) (plain : Bool) (text : String) : Option Value :=
  match use with
  | .none | .unreadable => untagged? plain text
  | .keep tag => (untagged? plain text).map (.tagged tag)
  | .bool => (Plain.bool? text).map .bool
  | .int => (Plain.int? text.toList).bind fun i => if Plain.fits i then some (.int i) else .none
  | .float => (Plain.float? text).map .float
  | .null => if Plain.isNull text then some .null else .none
  | .string => some (.string text)

def collection (use : TagUse) (content : Value) : Value :=
  match use with
  | .keep tag => .tagged tag content
  | _ => content

end TagUse

end YamlWeave

/-!
## The value of a text

From the tree of a text to its value: aliases are replaced by what they name, and scalars get their
kinds. A text has no value when it is not well formed, when it holds two documents, when a mapping
has two keys that are the same, and when it exceeds one of two limits: collections inside each
other, and aliases followed.
-/

namespace YamlWeave.Document

open Markup

/-- How many collections may stand inside each other. -/
def depthLimit : Nat := 128

/-- How many aliases may be followed for each unit of a tree's length. -/
def aliasesPerUnit : Nat := 100

/-- A computation that may fail and that counts how many more aliases may be followed. -/
abbrev Following := StateT Nat Option

/-- The node itself, or the one that an alias names. The number of aliases to follow goes down. -/
def follow (table : List (Slot × Node Slot)) : Node Slot → Following (Node Slot)
  | .alias slot => do
    match ← get with
    | 0 => failure
    | left + 1 =>
      set left
      match table.lookup slot with
      | some node => pure node
      | none => failure
  | node => pure node

/-- The value of a node at which collections may still stand `depth` deep. -/
def nodeValue (table : List (Slot × Node Slot)) (depth : Nat) (node : Node Slot) :
    Following Value := do
  match ← follow table node with
  | .alias _ => failure
  | .scalar properties plain text =>
    match (TagUse.ofBytes properties.tag).scalar? plain text with
    | some value => pure value
    | none => failure
  | .sequence properties items =>
    match depth with
    | 0 => failure
    | depth + 1 => do
      let items ← items.mapM (nodeValue table depth)
      pure ((TagUse.ofBytes properties.tag).collection (.sequence items))
  | .mapping properties entries =>
    match depth with
    | 0 => failure
    | depth + 1 => do
      let entries ← entries.foldlM (fun (done : Entries) (key, value) => do
        let key ← nodeValue table depth key
        if done.contains key then failure
        let value ← nodeValue table depth value
        pure (done ++ [(key, value)])) []
      pure ((TagUse.ofBytes properties.tag).collection (.mapping entries))

def rootValue? (root : Node String) : Option Value := do
  let (root, _) ← root.placed? []
  let (value, _) ← (nodeValue (root.anchored []) depthLimit root).run (aliasesPerUnit * root.length)
  some value

/-- The value of a text. An empty text is null. -/
def value? (text : String) : Option Value := do
  match ← content? text with
  | .nothing => some .null
  | .document root => rootValue? root

end YamlWeave.Document
