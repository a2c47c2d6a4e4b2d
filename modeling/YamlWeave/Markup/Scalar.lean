import YamlWeave.Markup.Spot

/-!
# Scalars

How the text of a scalar is read in each of its styles: between quotes, plainly, and on lines of its
own.
-/

set_option autoImplicit false

/-!
## Folded lines

Between two words of a scalar that runs over several lines stands a **gap**: blanks, or line ends
with the blanks around them. Blanks are kept. Line ends are folded: a single one is read as a space,
and of several all but the first are kept. A first line end that is a Unicode separator is kept too.
-/

namespace YamlWeave.Markup

/-- What stands between two words of a scalar. -/
inductive Gap where
  /-- Blanks on one line, the last of them first. -/
  | blanks (reversed : List Char)
  /-- Line ends: the first one, unless it was written off by a backslash, and the later ones, the
  last of them first. Blanks beside them do not count. -/
  | lines (first : Option Char) (reversedLater : List Char)
deriving DecidableEq

namespace Gap

def none : Gap := .blanks []

def addBlank (c : Char) : Gap → Gap
  | .blanks cs => .blanks (c :: cs)
  | .lines first later => .lines first later

/-- The gap with a line end after it. -/
def addBreak (c : Char) : Gap → Gap
  | .blanks _ => .lines (some c) []
  | .lines first later => .lines first (c :: later)

def isNone : Gap → Bool
  | .blanks [] => true
  | _ => false

/-- Whether the gap leaves the line it starts on. -/
def isMultiline : Gap → Bool
  | .blanks _ => false
  | .lines _ _ => true

/-- A reversed text with the folded gap written after it. -/
def foldOnto (reversedText : List Char) : Gap → List Char
  | .blanks cs => cs ++ reversedText
  | .lines .none later => later ++ reversedText
  | .lines (some c) later =>
    if c == '\n' then
      if later.isEmpty then ' ' :: reversedText else later ++ reversedText
    else later ++ (c :: reversedText)

end Gap

/-!
## Quoted scalars

Text in single quotes, where only the quote itself is written twice, and text in double quotes,
where a backslash starts an escape. In both, line ends are folded as `Gap` says.
-/

def hexDigit? (c : Char) : Option Nat :=
  if c.isDigit then some (c.toNat - '0'.toNat)
  else if 'a' ≤ c ∧ c ≤ 'f' then some (c.toNat - 'a'.toNat + 10)
  else if 'A' ≤ c ∧ c ≤ 'F' then some (c.toNat - 'A'.toNat + 10)
  else none

def hexNumber? (spots : List Spot) : Option Nat :=
  spots.foldlM (fun n s => (hexDigit? s.char).map (n * 16 + ·)) 0

/-- The character that hexadecimal digits name. Halves of surrogate pairs and numbers past the last
code point name none. -/
def hexChar? (spots : List Spot) : Option Char := do
  let n ← hexNumber? spots
  if n.isValidChar then some (Char.ofNat n) else none

/-- The character that a backslash and one letter stand for. -/
def shortEscape? : Char → Option Char
  | '0' => some '\x00'
  | 'a' => some '\x07'
  | 'b' => some '\x08'
  | 't' => some '\t'
  | '\t' => some '\t'
  | 'n' => some '\n'
  | 'v' => some '\x0b'
  | 'f' => some '\x0c'
  | 'r' => some '\r'
  | 'e' => some '\x1b'
  | ' ' => some ' '
  | '"' => some '"'
  | '/' => some '/'
  | '\\' => some '\\'
  | 'N' => some '\u0085'
  | '_' => some '\u00a0'
  | 'L' => some '\u2028'
  | 'P' => some '\u2029'
  | _ => none

/-- Reads to the closing quote, from inside a quoted scalar. Gives the text, the last character
first, and what follows the quote; `none` when the text ends first, when a document mark opens a
line inside the quotes, and when an escape is not one. -/
def readQuoted (double : Bool) (text : List Char) (gap : Gap) :
    List Spot → Option (List Char × List Spot)
  | [] => none
  | s :: rest =>
    if s.char == endMark || atDocumentMark (s :: rest) then none
    else if isBreak s.char then readQuoted double text (gap.addBreak s.char) rest
    else if isBlank s.char then readQuoted double text (gap.addBlank s.char) rest
    else
      let text := gap.foldOnto text
      if double then
        if s.char == '"' then some (text, rest)
        else if s.char == '\\' then
          match rest with
          | [] => none
          | e :: rest =>
            if isBreak e.char then readQuoted double text (.lines none []) rest
            else match shortEscape? e.char with
              | some c => readQuoted double (c :: text) Gap.none rest
              | none =>
                if e.char == 'x' then
                  match rest with
                  | a :: b :: rest => do
                    readQuoted double ((← hexChar? [a, b]) :: text) Gap.none rest
                  | _ => none
                else if e.char == 'u' then
                  match rest with
                  | a :: b :: c :: d :: rest => do
                    readQuoted double ((← hexChar? [a, b, c, d]) :: text) Gap.none rest
                  | _ => none
                else if e.char == 'U' then
                  match rest with
                  | a :: b :: c :: d :: a' :: b' :: c' :: d' :: rest => do
                    let char ← hexChar? [a, b, c, d, a', b', c', d']
                    readQuoted double (char :: text) Gap.none rest
                  | _ => none
                else none
        else readQuoted double (s.char :: text) Gap.none rest
      else if s.char == '\'' then
        match rest with
        | q :: rest' =>
          if q.char == '\'' then readQuoted double ('\'' :: text) Gap.none rest'
          else some (text, q :: rest')
        | [] => some (text, [])
      else readQuoted double (s.char :: text) Gap.none rest

/-- The scalar whose opening quote stands just before, and what follows its closing quote. -/
def quoted? (double : Bool) (spots : List Spot) : Option (String × List Spot) :=
  (readQuoted double [] Gap.none spots).map fun (text, rest) => (String.ofList text.reverse, rest)

/-!
## Plain scalars

Text without quotes. It ends before a comment, before a colon that ends a word, before a document
mark, and in a block before a line that is not indented enough. Inside brackets and braces it also
ends before their own indicators.
-/

/-- Brackets, braces and the comma, which mean something inside brackets and braces only. -/
def isFlowIndicator (c : Char) : Bool :=
  c == ',' || c == '[' || c == ']' || c == '\x7b' || c == '\x7d'

/-- Characters that mean something in front of a node, so that no plain scalar starts with them. -/
def isIndicator (c : Char) : Bool :=
  isFlowIndicator c || c == '-' || c == '?' || c == ':' || c == '#' || c == '&' || c == '*' ||
    c == '!' || c == '|' || c == '>' || c == '\'' || c == '"' || c == '%' || c == '@' || c == '\x60'

def startsPlain (inFlow : Bool) (spots : List Spot) : Bool :=
  let c := peek spots
  (!endsWord c && !isIndicator c) || (c == '-' && !isBlank (peekAt 1 spots)) ||
    (!inFlow && (c == '?' || c == ':') && !endsWord (peekAt 1 spots))

/-- Whether a plain scalar ends before a character that is no blank and no line end. -/
def endsPlain (inFlow : Bool) (indent : Int) (gap : Gap) (s : Spot) (rest : List Spot) : Bool :=
  s.char == endMark || (s.char == ':' && endsWord (peek rest)) ||
    (inFlow && isFlowIndicator s.char) ||
    (!gap.isNone &&
      (s.char == '#' || (!inFlow && (s.column : Int) < indent) || atDocumentMark (s :: rest)))

/-- Reads a plain scalar. Gives the text, the last character first, whether it ended on a later line
than its last word, and what follows it. There is none when a tab stands where a later line is to be
indented, and when a colon touches an indicator of brackets or braces. -/
def readPlain (inFlow : Bool) (indent : Int) (text : List Char) (gap : Gap) :
    List Spot → Option (List Char × Bool × List Spot)
  | [] => some (text, gap.isMultiline, [])
  | s :: rest =>
    if isBreak s.char then readPlain inFlow indent text (gap.addBreak s.char) rest
    else if isBlank s.char then
      if gap.isMultiline && s.char == '\t' && (s.column : Int) < indent then none
      else readPlain inFlow indent text (gap.addBlank s.char) rest
    else if endsPlain inFlow indent gap s rest then some (text, gap.isMultiline, s :: rest)
    else if inFlow && s.char == ':' && (isFlowIndicator (peek rest) || peek rest == '?') then none
    else readPlain inFlow indent (s.char :: gap.foldOnto text) Gap.none rest

/-!
## Block scalars

Text on lines of its own, indented further than what holds it. A literal scalar keeps its line ends;
a folded one joins lines that start with a character other than a blank. The header says which of
the last line ends are kept, and may say how far the text is indented; otherwise the first line that
holds text does.
-/

/-- What becomes of the line ends after the last line of text. -/
inductive Chomping where
  /-- All of them are dropped. -/
  | strip
  /-- The first of them stays. -/
  | clip
  /-- All of them stay. -/
  | keep
deriving DecidableEq

/-- What the header of a block scalar says. -/
structure BlockHeader where
  folded : Bool
  chomping : Chomping
  /-- The indentation of the text, when the header gives it. -/
  indent : Option Nat
deriving DecidableEq

def chomping? : Char → Option Chomping
  | '+' => some .keep
  | '-' => some .strip
  | _ => none

/-- Reads what may follow `|` or `>`: a sign and a digit from one to nine in either order, then
nothing more than a comment. `outer` is the indentation of what holds the scalar. -/
def blockHeader? (folded : Bool) (outer : Int) (spots : List Spot) :
    Option (BlockHeader × List Spot) := do
  let digit? (spots : List Spot) : Option (Option Nat × List Spot) :=
    let c := peek spots
    if !c.isDigit then some (none, spots)
    else if c == '0' then none
    else some (some (c.toNat - '0'.toNat), spots.drop 1)
  let sign (spots : List Spot) : Option Chomping × List Spot :=
    match chomping? (peek spots) with
    | some chomping => (some chomping, spots.drop 1)
    | none => (none, spots)
  let (first, spots) := sign spots
  let (step, spots) ← digit? spots
  let (second, spots) := if first.isNone && step.isSome then sign spots else (none, spots)
  let spots := skipBlanks spots
  let spots := if peek spots == '#' then skipLine spots else spots
  if !endsLine (peek spots) then none
  let header := {
    folded
    chomping := (first.or second).getD .clip
    indent := step.map fun n => (max outer 0).toNat + n : BlockHeader }
  some (header, if isBreak (peek spots) then spots.drop 1 else spots)

/-- The text of a block scalar so far. -/
structure BlockText where
  /-- The text, the last character first, without the end of its last line. -/
  reversed : List Char
  /-- The end of its last line. -/
  lineEnd : Option Char
  /-- The ends of the empty lines after it, the last one first. -/
  emptyLines : List Char
  /-- Whether its last line starts with a blank. -/
  blankFirst : Bool
deriving DecidableEq

namespace BlockText

def empty : BlockText := ⟨[], none, [], false⟩

/-- The text as a new line of it starts. Lines are joined when the scalar is folded and neither the
last line nor the new one starts with a blank. -/
def startLine (folded : Bool) (first : Char) (t : BlockText) : BlockText :=
  let joined := folded && t.lineEnd == some '\n' && !t.blankFirst && !isBlank first
  let start :=
    if joined then (if t.emptyLines.isEmpty then ' ' :: t.reversed else t.reversed)
    else t.lineEnd.toList ++ t.reversed
  ⟨t.emptyLines ++ start, none, [], isBlank first⟩

/-- The text with one more character on its last line. -/
def push (c : Char) (t : BlockText) : BlockText :=
  { t with reversed := c :: t.reversed }

/-- The whole text, the last character first. -/
def finish (chomping : Chomping) (t : BlockText) : List Char :=
  match chomping with
  | .strip => t.reversed
  | .clip => t.lineEnd.toList ++ t.reversed
  | .keep => t.emptyLines ++ (t.lineEnd.toList ++ t.reversed)

end BlockText

/-- Reads the lines of a block scalar. `indent` is their indentation once it is known and `widest`
the furthest column reached before that; `least` is the smallest indentation that they may have.
There is none when a tab stands where a line is to be indented. -/
def readBlock (folded : Bool) (least : Nat) (indent : Option Nat) (widest : Nat) (inLine : Bool)
    (text : BlockText) : List Spot → Option (BlockText × List Spot)
  | [] => some (text, [])
  | s :: rest =>
    if inLine then
      if isBreak s.char then
        readBlock folded least indent widest false { text with lineEnd := some s.char } rest
      else if s.char == endMark then some (text, s :: rest)
      else readBlock folded least indent widest true (text.push s.char) rest
    else
      let outside := indent.all (s.column < ·)
      if outside && s.char == ' ' then readBlock folded least indent widest false text rest
      else if outside && s.char == '\t' then none
      else
        let widest := max widest s.column
        if isBreak s.char then
          readBlock folded least indent widest false
            { text with emptyLines := s.char :: text.emptyLines } rest
        else
          let found := indent.getD (max widest least)
          if s.column == found && s.char != endMark then
            readBlock folded least (some found) widest true
              ((text.startLine folded s.char).push s.char) rest
          else some (text, s :: rest)

/-- The block scalar whose indicator stands just before, and what follows it. `outer` is the
indentation of what holds it, or -1. -/
def block? (folded : Bool) (outer : Int) (spots : List Spot) : Option (String × List Spot) := do
  let (header, spots) ← blockHeader? folded outer spots
  let least := (max (outer + 1) 1).toNat
  let (text, rest) ← readBlock folded least header.indent 0 false BlockText.empty spots
  some (String.ofList (text.finish header.chomping).reverse, rest)

end YamlWeave.Markup
