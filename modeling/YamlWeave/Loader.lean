import YamlWeave.Path
import YamlWeave.Resolve
import YamlWeave.Value.Document

/-!
# Loading documents

Where documents come from, how they are to be loaded, and the loading itself.
-/

set_option autoImplicit false

/-!
## Sources and options

Where a document comes from, and how it is to be loaded.
-/

namespace YamlWeave

inductive Source where
  | file (path : Path)
  | text (content : String)
deriving DecidableEq

namespace Source

/-- The directory of a file. A text has none. -/
def directory? : Source → Option Path
  | .file path => some path.directory
  | .text _ => none

def name : Source → Path
  | .file path => path
  | .text _ => ⟨"<string>"⟩

end Source

structure Options where
  /-- The directory from which names of included files start. -/
  root : Option Path
  mergeKeys : Bool
deriving DecidableEq

namespace Options

/-- What holds where nothing is said: no root of its own, and merge keys are resolved. -/
def standard : Options := ⟨none, true⟩

/-- The directory from which names of included files start: the given one, else the directory of the
source, else the current one. -/
def rootFor (options : Options) (source : Source) : Path :=
  options.root.getD (source.directory?.getD .here)

end Options

/-!
## Loading documents

A loader reads a document, resolves its tags and then its merge keys. Included files are loaded in
the same way by loaders of their own, each with the directory of its file as its root.

A loader knows which files it is in the middle of, by their canonical paths, and refuses to load one
of them again. A file that is read therefore becomes one more of the finitely many files that the
world has, and loading comes to an end however files include each other.
-/

/-- What loads documents. -/
structure Loader where
  /-- The directory from which names of included files start. -/
  root : Path
  mergeKeys : Bool
  /-- What the files are recognised by that are being loaded, the innermost first. -/
  opened : List Path
deriving DecidableEq

namespace Loader

/-- The loader for a source under some options. -/
def new (options : Options) (source : Source) : Loader :=
  ⟨options.rootFor source, options.mergeKeys, []⟩

/-- The loader that starts from a directory and resolves merge keys. -/
def withRoot (root : Path) : Loader :=
  ⟨root, true, []⟩

def forInclude (l : Loader) (path : Path) : Loader :=
  { l with root := path.directory }

/-- Whether a file is being loaded. -/
def isOpen (l : Loader) (key : Path) : Bool :=
  l.opened.any (·.sameAs key)

/-- The loader in the middle of one more file. -/
def enter (key : Path) (l : Loader) : Loader :=
  { l with opened := key :: l.opened }

/-- The loader once it is done with the innermost file. -/
def leave (l : Loader) : Loader :=
  { l with opened := l.opened.tail }

/-- The number of files that can still be entered. -/
def remaining (w : World) (l : Loader) : Nat :=
  w.files.countP fun file => !l.isOpen file

/-- What the tags of a document are resolved with. -/
def resolver (w : World) (l : Loader) (load : Path → Except Failure Value) : Resolver :=
  ⟨l.root, w.valueOf?, load⟩

/-- The document in a text. `load` gives the documents of included files. -/
def compose (w : World) (l : Loader) (load : Path → Except Failure Value) (text : String)
    (path : Path) : Except Failure Value := do
  let value ←
    match Document.value? text with
    | some value => .ok value
    | none => .error (.notYaml path)
  let value ← value.resolved (l.resolver w load)
  if l.mergeKeys then value.merged.mapError (.unmergeable path) else .ok value

/-- In the middle of one more file, this file is open and so are those before. -/
theorem isOpen_enter (l : Loader) (key file : Path) :
    (l.enter key).isOpen file = (key.sameAs file || l.isOpen file) := rfl

/-- Entering a file that is not open leaves one file less to enter. This is why loads end: there are
finitely many files that can be read, and each is entered once at most on the way. -/
theorem remaining_enter_lt {w : World} {l : Loader} {p : Path} {text : String}
    (hread : w.read p = .ok text) (hopen : ¬ l.isOpen (w.key p) = true) (q : Path) :
    ((l.enter (w.key p)).forInclude q).remaining w < l.remaining w := by
  obtain ⟨file, hmem, hfile⟩ := w.canonical_mem_files p text hread
  have hkey : w.key p = file := by simp [World.key, hfile]
  rw [hkey] at hopen ⊢
  have hself : file.sameAs file = true := by simp [Path.sameAs]
  have hsub : ∀ f, (!((l.enter file).forInclude q).isOpen f) = true → (!l.isOpen f) = true := by
    intro f hf
    simp only [forInclude, isOpen, enter, List.any_cons, Bool.not_or, Bool.and_eq_true] at hf
    exact hf.2
  unfold remaining
  obtain ⟨front, back, hsplit⟩ := List.append_of_mem hmem
  rw [hsplit]
  simp only [List.countP_append, List.countP_cons]
  have h₁ := List.countP_mono_left (l := front) (fun f _ => hsub f)
  have h₂ := List.countP_mono_left (l := back) (fun f _ => hsub f)
  have h₃ : (!((l.enter file).forInclude q).isOpen file) = false := by
    simp [forInclude, isOpen, enter, hself]
  have h₄ : (!l.isOpen file) = true := by simpa using hopen
  rw [h₃, h₄]
  simp
  omega

/-- Loads a file while at most `budget` more files can be entered. When none can, a file that is
read is open already. -/
def loadWithin (w : World) (budget : Nat) (l : Loader) (p : Path) : Except Failure Value × Loader :=
  if l.isOpen (w.key p) then (.error (.circularInclude p), l)
  else
    match w.read p with
    | .error fault => (.error (.unreadable p fault), l)
    | .ok text =>
      match budget with
      | 0 => (.error (.circularInclude p), l)
      | budget + 1 =>
        let inside := l.enter (w.key p)
        (inside.compose w (fun q => (loadWithin w budget (inside.forInclude q) q).1) text p,
          inside.leave)
termination_by structural budget

/-- Loads a file. The path is opened as it is given; only names inside documents start from the
root. -/
def loadFile (w : World) (l : Loader) (p : Path) : Except Failure Value × Loader :=
  l.loadWithin w (l.remaining w) p

/-- A budget of more files than can be entered changes nothing. So the budget is a measure for the
recursion and no limit of its own. -/
theorem loadWithin_eq_loadFile {w : World} {budget : Nat} {l : Loader}
    (hbudget : l.remaining w ≤ budget) (p : Path) :
    l.loadWithin w budget p = l.loadFile w p := by
  suffices h : ∀ b c (l : Loader) (p : Path), l.remaining w ≤ b → l.remaining w ≤ c →
      l.loadWithin w b p = l.loadWithin w c p from h _ _ l p hbudget (Nat.le_refl _)
  intro b
  induction b with
  | zero =>
    intro c l p hb hc
    unfold loadWithin
    split
    · rfl
    · next hopen =>
      split
      · rfl
      · next text hread =>
        have := remaining_enter_lt hread hopen p
        omega
  | succ b ih =>
    intro c l p hb hc
    unfold loadWithin
    split
    · rfl
    · next hopen =>
      split
      · rfl
      · next text hread =>
        have hlt := remaining_enter_lt hread hopen
        cases c with
        | zero =>
          have := hlt p
          omega
        | succ c =>
          have hload : (fun q => (loadWithin w b ((l.enter (w.key p)).forInclude q) q).1) =
              fun q => (loadWithin w c ((l.enter (w.key p)).forInclude q) q).1 := by
            funext q
            have := hlt q
            rw [ih c _ q (by omega) (by omega)]
          simp only [hload]

/-- How a file is loaded, without regard to how many files can be entered. All laws of loads start
from this equation. -/
theorem loadFile_eq (w : World) (l : Loader) (p : Path) :
    l.loadFile w p =
      if l.isOpen (w.key p) then (.error (.circularInclude p), l)
      else
        match w.read p with
        | .error fault => (.error (.unreadable p fault), l)
        | .ok text =>
          let inside := l.enter (w.key p)
          (inside.compose w (fun q => ((inside.forInclude q).loadFile w q).1) text p,
            inside.leave) := by
  rw [← loadWithin_eq_loadFile (Nat.le_succ (l.remaining w)), loadWithin]
  split
  · rfl
  · next hopen =>
    split
    · rfl
    · next text hread =>
      have hload :
          (fun q => (loadWithin w (l.remaining w) ((l.enter (w.key p)).forInclude q) q).1) =
            fun q => (((l.enter (w.key p)).forInclude q).loadFile w q).1 := by
        funext q
        rw [loadWithin_eq_loadFile (Nat.le_of_lt (remaining_enter_lt hread hopen q))]
      simp only [hload]

/-- Loads a text. The path is only used in messages. -/
def loadText (w : World) (l : Loader) (text : String) (path : Path) :
    Except Failure Value × Loader :=
  (l.compose w (fun q => ((l.forInclude q).loadFile w q).1) text path, l)

def load (w : World) (l : Loader) (source : Source) : Except Failure Value × Loader :=
  match source with
  | .file path => l.loadFile w path
  | .text content => l.loadText w content source.name

end Loader

/-- The document of a source under some options. -/
def load (w : World) (options : Options) (source : Source) : Except Failure Value :=
  ((Loader.new options source).load w source).1

end YamlWeave
