/-!
# Paths

A path is a text whose slashes separate its **segments**. Its spelling is kept, because messages
show it; what it means is its **components**, in which repeated slashes, a slash at the end and dots
inside do not count. A dot in front of a relative path does.

`p / q` is `q` as seen from the directory `p`, and `p.parent?` is the directory that holds `p`.
-/

set_option autoImplicit false

namespace YamlWeave

/-- A path, as it is spelled. -/
structure Path where
  text : String
deriving DecidableEq

namespace Path

/-- The pieces of a path between its slashes. There is one more of them than there are slashes, so
that a path that starts or ends with a slash has an empty segment there. -/
def segments (p : Path) : List String :=
  (p.text.toList.splitOn '/').map String.ofList

/-- The path that has these segments, as long as there is one and none has a slash in it. -/
def ofSegments (segments : List String) : Path :=
  ⟨String.ofList (['/'].intercalate (segments.map String.toList))⟩

def empty : Path := ⟨""⟩

def root : Path := ⟨"/"⟩

/-- The path of the directory that relative paths start from. -/
def here : Path := ⟨"."⟩

/-- Whether a path starts at the root directory. -/
def isAbsolute (p : Path) : Bool :=
  p.text.toList.head? == some '/'

/-- Whether a segment after the first one counts as a component. -/
def counts (segment : String) : Bool :=
  segment != "" && segment != "."

/-- A part of a path that counts. -/
inductive Component where
  | root
  /-- The dot in front of a relative path. -/
  | here
  /-- A name. Two dots are one of them. -/
  | name (n : String)
deriving DecidableEq

/-- What the first segment of a path counts for. -/
def leading (p : Path) (first : String) : List Component :=
  if p.isAbsolute then [.root]
  else if first == "" then []
  else if first == "." then [.here]
  else [.name first]

def components (p : Path) : List Component :=
  match p.segments with
  | [] => []
  | first :: later => p.leading first ++ (later.filter counts).map .name

/-- Whether two paths have the same components. -/
def sameAs (p q : Path) : Bool :=
  p.components == q.components

/-- Segments without those at the end that do not count. -/
def trimmed (segments : List String) : List String :=
  (segments.reverse.dropWhile (!counts ·)).reverse

/-- The path without its last component and what follows it. The root directory has no parent, nor
has the path without any text. -/
def parent? (p : Path) : Option Path :=
  match p.segments with
  | [] => none
  | first :: later =>
    if (trimmed later).isEmpty then
      if first == "" then none else some empty
    else
      let kept := trimmed (trimmed later).dropLast
      some (if p.isAbsolute && kept.isEmpty then root else ofSegments (first :: kept))

/-- The directory that holds what a path names, where a path without a parent is taken to be in the
directory without a name. -/
def directory (p : Path) : Path :=
  p.parent?.getD empty

/-- A path as seen from a directory: the two with one slash between them. An absolute path is the
same from everywhere, and every path is when the directory has no name. -/
def join (directory p : Path) : Path :=
  if p.isAbsolute || directory == empty then p
  else if directory.text.toList.getLast? == some '/' then ⟨directory.text ++ p.text⟩
  else ⟨directory.text ++ "/" ++ p.text⟩

instance : HDiv Path Path Path := ⟨join⟩

end Path

end YamlWeave
