import YamlWeave.Markup.Scalar

/-!
# Tokens and how a text is split into them

A text is read from left to right and given as tokens, in which indentation and line ends are
settled.
-/

set_option autoImplicit false

/-!
## Tokens

What a text consists of once indentation and line ends are settled. Block collections are opened and
closed by tokens of their own, so a reader of tokens needs to know nothing of columns.
-/

namespace YamlWeave.Markup

/-- A token of a text. -/
inductive Token where
  /-- `%YAML` with its two numbers. -/
  | version (major minor : Nat)
  /-- `%TAG` with a handle and what the handle stands for. -/
  | tagHandle (handle : String) (standsFor : List UInt8)
  /-- `---` -/
  | documentStart
  /-- `...` -/
  | documentEnd
  | blockSequenceStart
  | blockMappingStart
  | blockEnd
  /-- `[` -/
  | flowSequenceStart
  /-- `]` -/
  | flowSequenceEnd
  /-- `{` -/
  | flowMappingStart
  /-- `}` -/
  | flowMappingEnd
  /-- `-` before an element. -/
  | blockEntry
  /-- `,` -/
  | flowEntry
  /-- Before a key, whether `?` is written or not. -/
  | key
  /-- `:` before a value. -/
  | value
  | alias (name : String)
  | anchor (name : String)
  /-- A tag as a handle and what follows it. A tag in angle brackets has the empty handle. -/
  | tag (handle : String) (suffix : List UInt8)
  /-- The text of a scalar and whether it is plain, without quotes or a block indicator. -/
  | scalar (plain : Bool) (text : String)
deriving DecidableEq

/-!
## Anchors, tags and directives

What stands in front of a node, and what stands in front of a document. The parts of a tag are kept
as bytes: an escape `%xx` writes one byte, and nothing says that the bytes of a tag are a text.
-/

def takeName (spots : List Spot) : String × List Spot :=
  (String.ofList ((spots.takeWhile (isNameChar ·.char)).map (·.char)),
    spots.dropWhile (isNameChar ·.char))

/-- The name of an anchor or an alias. It has a character and ends at a word's end or before one of
a few indicators. -/
def anchorName? (spots : List Spot) : Option (String × List Spot) :=
  let (name, rest) := takeName spots
  let c := peek rest
  if name.isEmpty then none
  else if endsWord c || c == '?' || c == ':' || c == ',' || c == ']' || c == '\x7d' || c == '%' ||
      c == '@' || c == '\x60' then some (name, rest)
  else none

/-! ### Tags -/

/-- Characters that a tag may hold unescaped. Indicators of brackets are among them only where the
tag has an end of its own. -/
def isUriChar (bracketed : Bool) (c : Char) : Bool :=
  isNameChar c || ";/?:@&=+$.!~*'()".toList.contains c || (bracketed && ",[]".toList.contains c)

/-- How many bytes a character has whose first byte is `b`, or `none` when no character starts with
it. -/
def byteCount? (b : Nat) : Option Nat :=
  if b < 0x80 then some 1
  else if b / 0x20 == 0x6 then some 2
  else if b / 0x10 == 0xE then some 3
  else if b / 0x8 == 0x1E then some 4
  else none

/-- Reads the characters of a tag. `due` is the number of later bytes that the escape read last
still needs. Gives the bytes, the last one first. -/
def readUri (bracketed : Bool) (due : Nat) (bytes : List UInt8) :
    List Spot → Option (List UInt8 × List Spot)
  | [] => some (bytes, [])
  | s :: rest =>
    if s.char == '%' then
      match rest with
      | a :: b :: rest => do
        let byte ← hexNumber? [a, b]
        if due == 0 then
          readUri bracketed ((← byteCount? byte) - 1) (byte.toUInt8 :: bytes) rest
        else if byte / 0x40 == 2 then readUri bracketed (due - 1) (byte.toUInt8 :: bytes) rest
        else none
      | _ => none
    else if due != 0 then none
    else if isUriChar bracketed s.char then
      readUri bracketed 0 (s.char.toNat.toUInt8 :: bytes) rest
    else some (bytes, s :: rest)

/-- The bytes of a tag, which end before a zero byte, and what follows them. There must be one. -/
def uri? (bracketed : Bool) (spots : List Spot) : Option (List UInt8 × List Spot) := do
  let (bytes, rest) ← readUri bracketed 0 [] spots
  if bytes.isEmpty then none else some (bytes.reverse.takeWhile (· != 0), rest)

/-- A handle as it is written, from its exclamation mark on, and what follows it. -/
def takeHandle (spots : List Spot) : String × List Spot :=
  let (name, rest) := takeName (spots.drop 1)
  if peek rest == '!' then ("!" ++ name ++ "!", rest.drop 1) else ("!" ++ name, rest)

/-- The tag that starts here, and what follows it: one in angle brackets, one with a handle that has
an exclamation mark on both sides, or one with a single exclamation mark in front. It ends at a
word's end, and inside brackets and braces also before a comma. -/
def tag? (inFlow : Bool) (spots : List Spot) : Option (Token × List Spot) := do
  let (token, rest) ←
    if peekAt 1 spots == '<' then do
      let (suffix, rest) ← uri? true (spots.drop 2)
      if peek rest == '>' then some (Token.tag "" suffix, rest.drop 1) else none
    else
      let (handle, rest) := takeHandle spots
      if handle.length ≥ 2 && handle.endsWith "!" then do
        let (suffix, rest) ← uri? false rest
        some (Token.tag handle suffix, rest)
      else do
        let (bytes, rest) ← readUri false 0 [] rest
        let suffix := ((handle.drop 1).toString.toUTF8.toList ++ bytes.reverse).takeWhile (· != 0)
        some (if suffix.isEmpty then Token.tag "" [0x21] else Token.tag "!" suffix, rest)
  if endsWord (peek rest) || (inFlow && peek rest == ',') then some (token, rest) else none

/-! ### Directives -/

/-- A number of at most nine digits. -/
def number? (spots : List Spot) : Option (Nat × List Spot) :=
  let digits := spots.takeWhile (·.char.isDigit)
  if digits.isEmpty || digits.length > 9 then none
  else some (Nat.ofDigitChars 10 (digits.map (·.char)) 0, spots.drop digits.length)

/-- The directive that starts here, and what follows its line. -/
def directive? (spots : List Spot) : Option (Token × List Spot) := do
  let (name, rest) := takeName (spots.drop 1)
  if name.isEmpty || !endsWord (peek rest) then none
  let rest := skipBlanks rest
  let (token, rest) ←
    if name == "YAML" then do
      let (major, rest) ← number? rest
      if peek rest != '.' then none
      let (minor, rest) ← number? (rest.drop 1)
      some (Token.version major minor, rest)
    else if name == "TAG" then do
      if peek rest != '!' then none
      let (handle, rest) := takeHandle rest
      if handle != "!" && !(handle.length ≥ 2 && handle.endsWith "!") then none
      if !isBlank (peek rest) then none
      let (standsFor, rest) ← uri? true (skipBlanks rest)
      if !endsWord (peek rest) then none
      some (Token.tagHandle handle standsFor, rest)
    else none
  let rest := skipBlanks rest
  let rest := if peek rest == '#' then skipLine rest else rest
  if !endsLine (peek rest) then none
  some (token, if isBreak (peek rest) then rest.drop 1 else rest)

/-!
## Splitting a text into tokens

`tokens?` reads a text from left to right and gives its tokens, or nothing when no text of that form
exists. Two things make the reading more than a sequence of independent steps.

**Indentation.** Every open block collection has a column. A token left of it closes the collection,
and a `-`, a `?` or a key right of it opens one.

**Keys without a question mark.** That a node was a key shows only at the colon after it. So the
place of a node that could be a key is remembered, and the tokens that open the mapping and the key
are put there once the colon is met. The node and the colon have to stand on one line, with at most
1024 bytes from the start of the one to the other. Inside brackets and braces each level remembers a
place of its own.
-/

/-- A node that will have been a key if a colon follows. -/
structure PossibleKey where
  /-- Whether the text is wrong if no colon follows: the node stands where an entry of the innermost
  block collection has to start. -/
  required : Bool
  /-- The number of tokens before it. -/
  position : Nat
  start : Spot
deriving DecidableEq

/-- A text that is read up to some point. -/
structure Lexer where
  /-- What is not read yet. -/
  rest : List Spot
  tokens : Array Token
  /-- The column of the innermost block collection, -1 outside of all. -/
  indent : Int
  /-- The columns around it, the innermost first. -/
  outerIndents : List Int
  keyAllowed : Bool
  /-- The possible key of the innermost level. -/
  key : Option PossibleKey
  /-- The possible keys of the levels around it. There is one level around each bracket or brace. -/
  outerKeys : List (Option PossibleKey)

namespace Lexer

def start (spots : List Spot) : Lexer :=
  ⟨spots, #[], -1, [], true, none, []⟩

/-- Whether a bracket or a brace is open. -/
def inFlow (l : Lexer) : Bool :=
  !l.outerKeys.isEmpty

def spot (l : Lexer) : Spot :=
  l.rest.headD ⟨endMark, 0, 0, 0⟩

/-- The text with `n` more characters read and a token added. -/
def emit (token : Token) (n : Nat) (l : Lexer) : Lexer :=
  { l with rest := l.rest.drop n, tokens := l.tokens.push token }

/-! ### Indentation -/

/-- Closes the block collections that are indented further than a column. -/
def closeTo (column : Int) (l : Lexer) : Lexer :=
  if l.inFlow then l else
  let closed := if column < l.indent then l.outerIndents.takeWhile (column < ·) else []
  if column < l.indent then
    { l with
      indent := (l.outerIndents.drop closed.length).headD (-1)
      outerIndents := (l.outerIndents.drop closed.length).drop 1
      tokens := l.tokens ++ List.replicate (closed.length + 1) Token.blockEnd }
  else l

/-- Opens a block collection at a column, unless one is open there or further right. The opening
token is put at a position among the tokens. -/
def openAt (column : Nat) (token : Token) (position : Nat) (l : Lexer) : Lexer :=
  if !l.inFlow && l.indent < column then
    { l with
      indent := column
      outerIndents := l.indent :: l.outerIndents
      tokens := l.tokens.insertIdxIfInBounds position token }
  else l

/-! ### Possible keys -/

/-- Gives up a possible key, which must not be required. -/
def giveUp : Option PossibleKey → Option Unit
  | some key => if key.required then none else some ()
  | none => some ()

/-- Gives up the possible key of the innermost level. -/
def dropKey (l : Lexer) : Option Lexer := do
  giveUp l.key
  some { l with key := none }

/-- How many bytes after its start a key may have its colon. -/
def keyLimit : Nat := 1024

/-- A possible key, unless it is too far before a place to be one. -/
def freshKey? (s : Spot) (key : Option PossibleKey) : Option (Option PossibleKey) :=
  match key with
  | some k =>
    if k.start.line < s.line || k.start.offset + keyLimit < s.offset then do
      giveUp key
      some none
    else some key
  | none => some none

/-- Gives up the possible keys that are too far back. -/
def dropStaleKeys (l : Lexer) : Option Lexer := do
  let key ← freshKey? l.spot l.key
  let outerKeys ← l.outerKeys.mapM (freshKey? l.spot)
  some { l with key, outerKeys }

/-- Notes that the node that starts here may be a key. -/
def noteKey (l : Lexer) : Option Lexer :=
  if !l.keyAllowed then some l else do
  giveUp l.key
  let required := !l.inFlow && l.indent == (l.spot.column : Int)
  some { l with key := some ⟨required, l.tokens.size, l.spot⟩ }

/-! ### One token -/

/-- Reads over blanks, comments and line ends. Tabs count as blanks only where no key may start.
After a line end outside of brackets and braces a key may start. Gives what follows and whether a
key may start there. -/
def skipGap (inFlow keyAllowed inComment : Bool) : List Spot → List Spot × Bool
  | [] => ([], keyAllowed)
  | s :: rest =>
    if isBreak s.char then skipGap inFlow (keyAllowed || !inFlow) false rest
    else if s.char == endMark then (s :: rest, keyAllowed)
    else if inComment then skipGap inFlow keyAllowed true rest
    else if s.char == byteOrderMark && s.column == 0 then skipGap inFlow keyAllowed false rest
    else if s.char == ' ' || (s.char == '\t' && (inFlow || !keyAllowed)) then
      skipGap inFlow keyAllowed false rest
    else if s.char == '#' then skipGap inFlow keyAllowed true rest
    else (s :: rest, keyAllowed)

/-- Goes to the next token: reads over the gap, gives up keys that are too far back and closes what
the new column closes. -/
def advance (l : Lexer) : Option Lexer := do
  let (rest, keyAllowed) := skipGap l.inFlow l.keyAllowed false l.rest
  let l ← { l with rest, keyAllowed }.dropStaleKeys
  some (l.closeTo l.spot.column)

/-- Closes all block collections, as the marks and directives between documents do. -/
def closeAll (l : Lexer) : Option Lexer := do
  let l ← (l.closeTo (-1)).dropKey
  some { l with keyAllowed := false }

def readDirective (l : Lexer) : Option Lexer := do
  let l ← l.closeAll
  let (token, rest) ← directive? l.rest
  some { l with rest, tokens := l.tokens.push token }

def readDocumentMark (token : Token) (l : Lexer) : Option Lexer := do
  let l ← l.closeAll
  some (l.emit token 3)

def readOpening (token : Token) (l : Lexer) : Option Lexer := do
  let l ← l.noteKey
  some { l.emit token 1 with key := none, outerKeys := l.key :: l.outerKeys, keyAllowed := true }

def readClosing (token : Token) (l : Lexer) : Option Lexer := do
  let l ← l.dropKey
  some { l.emit token 1 with
    key := (l.outerKeys.headD none), outerKeys := l.outerKeys.drop 1, keyAllowed := false }

def readComma (l : Lexer) : Option Lexer := do
  let l ← l.dropKey
  some { l.emit .flowEntry 1 with keyAllowed := true }

/-- Opens a block collection here for an indicator, which must stand where a key may start. Inside
brackets and braces there is nothing to open. -/
def openHere (token : Token) (l : Lexer) : Option Lexer :=
  if l.inFlow then some l
  else if l.keyAllowed then some (l.openAt l.spot.column token l.tokens.size)
  else none

def readHyphen (l : Lexer) : Option Lexer := do
  let l ← l.openHere .blockSequenceStart
  let l ← l.dropKey
  some { l.emit .blockEntry 1 with keyAllowed := true }

def readQuestionMark (l : Lexer) : Option Lexer := do
  let l ← l.openHere .blockMappingStart
  let l ← l.dropKey
  some { l.emit .key 1 with keyAllowed := !l.inFlow }

/-- Reads the colon before a value. When the node before it was possibly a key, it was one. -/
def readColon (l : Lexer) : Option Lexer :=
  match l.key with
  | some key =>
    let l := { l with key := none, tokens := l.tokens.insertIdxIfInBounds key.position Token.key }
    let l := l.openAt key.start.column .blockMappingStart key.position
    some { l.emit .value 1 with keyAllowed := false }
  | none => do
    let l ← l.openHere .blockMappingStart
    some { l.emit .value 1 with keyAllowed := !l.inFlow }

/-- Reads an anchor, an alias, a tag or a quoted scalar, as the given reader finds it. -/
def readPart (read : Lexer → Option (Token × List Spot)) (l : Lexer) : Option Lexer := do
  let l ← l.noteKey
  let (token, rest) ← read l
  some { l with rest, tokens := l.tokens.push token, keyAllowed := false }

def readBlockScalar (folded : Bool) (l : Lexer) : Option Lexer := do
  let l ← l.dropKey
  let (text, rest) ← block? folded l.indent (l.rest.drop 1)
  some { l with rest, tokens := l.tokens.push (.scalar false text), keyAllowed := true }

/-- Reads a plain scalar. When it ended on a later line, a key may start there. -/
def readPlainScalar (l : Lexer) : Option Lexer := do
  let l ← l.noteKey
  let (text, ended, rest) ← readPlain l.inFlow (l.indent + 1) [] Gap.none l.rest
  let token := Token.scalar true (String.ofList text.reverse)
  some { l with rest, tokens := l.tokens.push token, keyAllowed := ended }

def readToken (l : Lexer) : Option Lexer :=
  let c := l.spot.char
  let wordEndsAfter := endsWord (peekAt 1 l.rest)
  if c == '%' && l.spot.column == 0 then l.readDirective
  else if isDocumentMark '-' l.rest then l.readDocumentMark .documentStart
  else if isDocumentMark '.' l.rest then l.readDocumentMark .documentEnd
  else if c == '[' then l.readOpening .flowSequenceStart
  else if c == '\x7b' then l.readOpening .flowMappingStart
  else if c == ']' then l.readClosing .flowSequenceEnd
  else if c == '\x7d' then l.readClosing .flowMappingEnd
  else if c == ',' then l.readComma
  else if c == '-' && wordEndsAfter then l.readHyphen
  else if c == '?' && (l.inFlow || wordEndsAfter) then l.readQuestionMark
  else if c == ':' && (l.inFlow || wordEndsAfter) then l.readColon
  else if c == '*' then
    l.readPart fun l => (anchorName? (l.rest.drop 1)).map fun (name, rest) => (.alias name, rest)
  else if c == '&' then
    l.readPart fun l => (anchorName? (l.rest.drop 1)).map fun (name, rest) => (.anchor name, rest)
  else if c == '!' then l.readPart fun l => tag? l.inFlow l.rest
  else if c == '|' && !l.inFlow then l.readBlockScalar false
  else if c == '>' && !l.inFlow then l.readBlockScalar true
  else if c == '\'' || c == '"' then
    l.readPart fun l =>
      (quoted? (c == '"') (l.rest.drop 1)).map fun (text, rest) => (.scalar false text, rest)
  else if startsPlain l.inFlow l.rest then l.readPlainScalar
  else none

/-- Reads to the end. Every token takes a character, so no text has more tokens to read than
characters, and `steps` never runs out when it starts as their number. -/
def readAll (steps : Nat) (l : Lexer) : Option (Array Token) := do
  let l ← l.advance
  if l.spot.char == endMark then
    let l ← l.closeAll
    some l.tokens
  else
    match steps with
    | 0 => none
    | steps + 1 => readAll steps (← l.readToken)

end Lexer

def tokens? (text : String) : Option (List Token) := do
  let spots ← spots? text
  let tokens ← (Lexer.start spots).readAll spots.length
  some tokens.toList

end YamlWeave.Markup
