import YamlWeave.World

/-!
# Disks and hosts

A world that loads can run on: a directory tree with links, and variables.
-/

set_option autoImplicit false

/-!
## Files, directories and links

A directory tree as a table from locations to what is there. A location is the list of names that
lead to it from the root directory. Paths are followed name by name: a name has to be looked up in a
directory, two dots lead to the directory above, and a link is followed where it stands, at the end
of a path too.
-/

namespace YamlWeave

/-- The names that lead to a place from the root directory. -/
abbrev Location := List String

/-- What is at a location. -/
inductive Item where
  | file (content : ByteArray)
  | directory
  | link (target : Path)

structure Disk where
  /-- What is at each location. The root directory is not listed. -/
  items : List (Location × Item)
  here : Location

inductive Destination where
  /-- To something that is there. -/
  | found (location : Location)
  /-- To a free name in a directory that is there. -/
  | free (location : Location)
deriving DecidableEq

namespace Disk

/-- How many links may be followed on one path. -/
def linkLimit : Nat := 40

def nameLimit : Nat := 255

def pathLimit : Nat := 4095

/-- What is at a location. -/
def item? (d : Disk) (location : Location) : Option Item :=
  if location.isEmpty then some .directory else d.items.lookup location

def isDirectory (d : Disk) (location : Location) : Bool :=
  match d.item? location with
  | some .directory => true
  | _ => false

/-- Follows segments from a location. `follow` goes on where a link points to. -/
def walkWith (d : Disk) (follow : Location → List String → Except ReadFault Destination)
    (location : Location) : List String → Except ReadFault Destination
  | [] => .ok (.found location)
  | segment :: rest =>
    if !d.isDirectory location then .error .notADirectory
    else if segment == "" || segment == "." then walkWith d follow location rest
    else if segment == ".." then walkWith d follow location.dropLast rest
    else if segment.utf8ByteSize > nameLimit then .error .nameTooLong
    else
      let next := location ++ [segment]
      match d.item? next with
      | none => if rest.isEmpty then .ok (.free next) else .error .notFound
      | some (.link target) =>
        if target.isAbsolute then follow [] (target.segments.tail ++ rest)
        else follow location (target.segments ++ rest)
      | some _ => walkWith d follow next rest

/-- Follows segments from a location over at most `links` links. -/
def walk (d : Disk) : Nat → Location → List String → Except ReadFault Destination
  | 0 => d.walkWith fun _ _ => .error .tooManyLinks
  | links + 1 => d.walkWith (d.walk links)

/-- Where a path leads. The path without any text leads nowhere. -/
def follow (d : Disk) (p : Path) : Except ReadFault Destination :=
  if p == .empty then .error .notFound
  else if p.text.toList.contains '\x00' then .error .zeroInPath
  else if p.isAbsolute then d.walk linkLimit [] p.segments.tail
  else d.walk linkLimit d.here p.segments

def pathOf (location : Location) : Path :=
  if location.isEmpty then .root else .ofSegments ("" :: location)

def text? (content : ByteArray) : Option String :=
  String.fromUTF8? content

/-- The text of the file that a path names. -/
def read (d : Disk) (p : Path) : Except ReadFault String :=
  if p.text.toList.contains '\x00' then .error .zeroInPath
  else if p.text.utf8ByteSize > pathLimit then .error .nameTooLong
  else do
    match ← d.follow p with
    | .free _ => .error .notFound
    | .found location =>
      match d.item? location with
      | some (.file content) =>
        match text? content with
        | some text => .ok text
        | none => .error .notText
      | some _ => .error .isADirectory
      | none => .error .notFound

/-- The canonical path of what a path names. -/
def canonical? (d : Disk) (p : Path) : Option Path :=
  match d.follow p with
  | .ok (.found location) => some (pathOf location)
  | _ => none

/-- The canonical paths of the files that hold a text. -/
def textFiles (d : Disk) : List Path :=
  d.items.filterMap fun (location, item) =>
    match item with
    | .file content => (text? content).map fun _ => pathOf location
    | _ => none

/-- A path that can be read leads to one of the files that hold a text, of which a disk has finitely
many. So a host is a world in which files can run out. -/
theorem canonical?_mem_textFiles (d : Disk) (p : Path) (text : String) (h : d.read p = .ok text) :
    ∃ file ∈ d.textFiles, d.canonical? p = some file := by
  unfold read at h
  split at h
  · cases h
  · split at h
    · cases h
    · cases hfollow : d.follow p with
      | error fault => simp [hfollow, bind, Except.bind] at h
      | ok destination =>
        cases destination with
        | free location => simp [hfollow, bind, Except.bind] at h
        | found location =>
          refine ⟨pathOf location, ?_, by simp [canonical?, hfollow]⟩
          simp only [hfollow, bind, Except.bind] at h
          cases hitem : d.item? location with
          | none => simp [hitem] at h
          | some item =>
            cases item with
            | file content =>
              cases htext : text? content with
              | none => simp [hitem, htext] at h
              | some found =>
                unfold item? at hitem
                split at hitem
                · cases hitem
                · obtain ⟨front, back, hitems, -⟩ := List.lookup_eq_some_iff.mp hitem
                  refine List.mem_filterMap.mpr ⟨(location, .file content), ?_, by simp [htext]⟩
                  exact hitems ▸ List.mem_append_right front List.mem_cons_self
            | directory => simp [hitem] at h
            | link target => simp [hitem] at h

/-! ### Changing the tree -/

/-- Puts something at a location, in place of what is there. -/
def put (location : Location) (item : Item) (d : Disk) : Disk :=
  { d with items := (location, item) :: d.items.filter (·.1 != location) }

/-- Makes the directories on a path that are not there yet. -/
def makeDirectories (p : Path) (d : Disk) : Disk :=
  (List.range p.segments.length).foldl
    (fun d n =>
      match d.follow (.ofSegments (p.segments.take (n + 1))) with
      | .ok (.free location) => d.put location .directory
      | _ => d) d

/-- Writes a file and makes the directories above it. Over a link, what the link points to is
written. -/
def writeFile (p : Path) (content : ByteArray) (d : Disk) : Disk :=
  let d := d.makeDirectories p.directory
  match d.follow p with
  | .ok (.free location) => d.put location (.file content)
  | .ok (.found location) =>
    if d.isDirectory location then d else d.put location (.file content)
  | _ => d

/-- The location of a path whose last component is not followed. -/
def locate? (d : Disk) (p : Path) : Option Location :=
  match p.components.getLast? with
  | some (.name name) =>
    let directory := if p.directory == .empty then .here else p.directory
    match d.follow directory with
    | .ok (.found location) => if name == ".." then none else some (location ++ [name])
    | _ => none
  | _ => none

/-- Makes a link and the directories above it. -/
def makeLink (p target : Path) (d : Disk) : Disk :=
  let d := d.makeDirectories p.directory
  match d.locate? p with
  | some location => d.put location (.link target)
  | none => d

/-- Removes what a path names, and everything below it. A link is removed itself. -/
def remove (p : Path) (d : Disk) : Disk :=
  match d.locate? p with
  | some location => { d with items := d.items.filter fun entry => !location.isPrefixOf entry.1 }
  | none => d

end Disk

/-!
## Hosts

A directory tree together with variables: the world that loads see when they run on it.

A variable is looked up by the text in front of an equals sign. Variables are kept as assignments
`name=value`, so a name that holds an equals sign itself finds the variable whose assignment starts
with it.
-/

/-- The variables that are set, with their values. -/
abbrev Bindings := List (String × ByteArray)

namespace Bindings

/-- The text after the equals sign, of a text that starts with this name and an equals sign. -/
def valueAfter? : List UInt8 → List UInt8 → Option (List UInt8)
  | [], 0x3D :: value => some value
  | b :: name, c :: rest => if b == c then valueAfter? name rest else none
  | _, _ => none

/-- The value of the first assignment that starts with a name and an equals sign. -/
def bytes? (bindings : Bindings) (name : String) : Option ByteArray :=
  bindings.findSome? fun (set, value) =>
    (valueAfter? name.toUTF8.toList (set.toUTF8.toList ++ 0x3D :: value.toList)).map
      fun bytes => ⟨bytes.toArray⟩

/-- The value of a variable, when it is set and is a text. A name needs a character, and none of
them may be zero. -/
def text? (bindings : Bindings) (name : String) : Option String :=
  if name.isEmpty || name.toList.contains '\x00' then none
  else (bindings.bytes? name).bind String.fromUTF8?

def set (name : String) (value : ByteArray) (bindings : Bindings) : Bindings :=
  if bindings.any (·.1 == name) then
    bindings.map fun (n, v) => if n == name then (name, value) else (n, v)
  else bindings ++ [(name, value)]

def unset (name : String) (bindings : Bindings) : Bindings :=
  bindings.filter (·.1 != name)

end Bindings

structure Host where
  disk : Disk
  bindings : Bindings

namespace Host

/-- What a load sees of a host. -/
def world (h : Host) : World where
  read := h.disk.read
  canonical? := h.disk.canonical?
  valueOf? := h.bindings.text?
  files := h.disk.textFiles
  canonical_mem_files := h.disk.canonical?_mem_textFiles

end Host

end YamlWeave
