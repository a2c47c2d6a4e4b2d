import YamlWeave.Path

/-!
# The world around a load

All that a load may ask of its surroundings: the text of a file, the canonical path of a file, and
the value of a variable. A world has finitely many files that can be read, and a path that can be
read leads to one of them. Nothing else is assumed.
-/

set_option autoImplicit false

namespace YamlWeave

inductive ReadFault where
  | notFound
  /-- The path goes on below something that is no directory. -/
  | notADirectory
  | isADirectory
  /-- The path or a name in it is too long. -/
  | nameTooLong
  | tooManyLinks
  | notText
  | zeroInPath
deriving DecidableEq

namespace ReadFault

def message : ReadFault → String
  | .notFound => "No such file or directory (os error 2)"
  | .notADirectory => "Not a directory (os error 20)"
  | .isADirectory => "Is a directory (os error 21)"
  | .nameTooLong => "File name too long (os error 36)"
  | .tooManyLinks => "Too many levels of symbolic links (os error 40)"
  | .notText => "stream did not contain valid UTF-8"
  | .zeroInPath => "file name contained an unexpected NUL byte"

end ReadFault

/-- What a load may ask of its surroundings. -/
structure World where
  /-- The text of the file that a path names. -/
  read : Path → Except ReadFault String
  /-- The one path, among all that name the same file or directory, that is the same from everywhere
  and holds no links. -/
  canonical? : Path → Option Path
  /-- The value of a variable, when it is set and is a text. -/
  valueOf? : String → Option String
  /-- The canonical paths of the files that can be read. -/
  files : List Path
  /-- A path that can be read leads to one of the files. -/
  canonical_mem_files : ∀ (p : Path) (text : String), read p = .ok text →
    ∃ file ∈ files, canonical? p = some file

namespace World

/-- What a path is recognised by: its canonical path, or the path itself when it has none. -/
def key (w : World) (p : Path) : Path :=
  (w.canonical? p).getD p

end World

end YamlWeave
