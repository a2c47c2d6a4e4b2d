/-!
# Characters with their places

A text is read as a list of **spots**: characters that know their line, their column and how many
bytes stand before them. Line ends are settled here, so that nothing after this module has to
know how a line may end: a carriage return, a line feed, the two together and a next-line character
all become one line feed, while the two Unicode separators stand for themselves.

The list ends with one spot that holds `endMark`. The end of a text therefore has a place of its
own, which matters because indentation is closed there.
-/

set_option autoImplicit false

namespace YamlWeave.Markup

/-- A character and its place in the text. -/
structure Spot where
  /-- The character. Every line end except the two Unicode separators is written as a line feed. -/
  char : Char
  /-- The number of bytes before it, in UTF-8. -/
  offset : Nat
  /-- Its line, counted from zero. -/
  line : Nat
  /-- The number of characters before it on its line. -/
  column : Nat
deriving DecidableEq

/-- Stands for the end of the text. It may not occur inside one. -/
def endMark : Char := '\x00'

def byteOrderMark : Char := '\ufeff'

/-- Characters that a text may hold: tab, the line ends, and everything printable. -/
def isAllowed (c : Char) : Bool :=
  let n := c.toNat
  n == 0x09 || n == 0x0A || n == 0x0D || (0x20 ≤ n && n ≤ 0x7E) || n == 0x85 ||
    (0xA0 ≤ n && n ≤ 0xD7FF) || (0xE000 ≤ n && n ≤ 0xFFFD) || 0x10000 ≤ n

/-- Line ends as they are written in a text. -/
def isLineEnd (c : Char) : Bool :=
  c == '\n' || c == '\r' || c == '\u0085' || c == '\u2028' || c == '\u2029'

/-- The character that a line end is read as. -/
def lineEndAs (c : Char) : Char :=
  if c == '\u2028' || c == '\u2029' then c else '\n'

/-- Spots of a text from a given place on, or `none` when it holds a character that is not allowed.
A carriage return directly before a line feed counts as two bytes and one line end. -/
def spotsFrom (offset line column : Nat) : List Char → Option (List Spot)
  | [] => some [⟨endMark, offset, line, column⟩]
  | '\r' :: '\n' :: rest =>
    (spotsFrom (offset + 2) (line + 1) 0 rest).map (⟨'\n', offset, line, column⟩ :: ·)
  | c :: rest =>
    if !isAllowed c then none
    else if isLineEnd c then
      (spotsFrom (offset + c.utf8Size) (line + 1) 0 rest).map
        (⟨lineEndAs c, offset, line, column⟩ :: ·)
    else
      (spotsFrom (offset + c.utf8Size) line (column + 1) rest).map
        (⟨c, offset, line, column⟩ :: ·)

def spots? (text : String) : Option (List Spot) :=
  spotsFrom 0 0 0 text.toList

/-! ## Classes of characters -/

/-- A line end, as spots hold it. -/
def isBreak (c : Char) : Bool :=
  c == '\n' || c == '\u2028' || c == '\u2029'

def isBlank (c : Char) : Bool :=
  c == ' ' || c == '\t'

/-- What ends a line: a line end, or the end of the text. -/
def endsLine (c : Char) : Bool :=
  isBreak c || c == endMark

/-- What ends a word: a blank, a line end, or the end of the text. -/
def endsWord (c : Char) : Bool :=
  isBlank c || endsLine c

/-- Letters, digits, the underscore and the hyphen, of which names of anchors, handles and
directives are made. Only ASCII counts. -/
def isNameChar (c : Char) : Bool :=
  c.isAlphanum || c == '_' || c == '-'

/-! ## Looking ahead -/

def peek : List Spot → Char
  | [] => endMark
  | s :: _ => s.char

def peekAt (n : Nat) (spots : List Spot) : Char :=
  peek (spots.drop n)

def skipBlanks (spots : List Spot) : List Spot :=
  spots.dropWhile (isBlank ·.char)

/-- Drops what is left of the line, without the line end. -/
def skipLine (spots : List Spot) : List Spot :=
  spots.dropWhile (!endsLine ·.char)

/-- Whether three equal characters `c` open a line and stand alone, as the document marks do. -/
def isDocumentMark (c : Char) : List Spot → Bool
  | a :: b :: d :: rest =>
    a.column == 0 && a.char == c && b.char == c && d.char == c && endsWord (peek rest)
  | _ => false

/-- Whether a line that opens a document, `---`, or closes one, `...`, starts here. -/
def atDocumentMark (spots : List Spot) : Bool :=
  isDocumentMark '-' spots || isDocumentMark '.' spots

end YamlWeave.Markup
