import YamlWeave.Proofs.Loader.Documents

/-!
# Included documents are loaded as if alone

What is open while a file is loaded shows in the outcome only when the load is cut off for a cycle:
with fewer files open the outcome is the same (`loadFile_of_narrower`, `loadText_of_narrower`). An
included file has the root that the same file has as a source of its own, so including it gives what
loading it alone gives (`load_file_alone`).
-/

set_option autoImplicit false

namespace YamlWeave

/-- A load was cut off because it came back to a file that is being loaded. -/
def Circular (outcome : Except Failure Value) : Prop :=
  ∃ path, outcome = .error (.circularInclude path)

namespace Loader

/-- A loader is another one with fewer files open. -/
structure Narrower (l' l : Loader) : Prop where
  root : l'.root = l.root
  mergeKeys : l'.mergeKeys = l.mergeKeys
  opened : ∀ file ∈ l'.opened, l.isOpen file = true

variable {w : World} {l l' : Loader} {p : Path}

namespace Narrower

/-- A file that is open in the loader with fewer files is open in the other one too. -/
theorem isOpen (h : Narrower l' l) {file : Path} (hopen : l'.isOpen file = true) :
    l.isOpen file = true := by
  obtain ⟨other, hother, hsame⟩ := List.any_eq_true.mp hopen
  obtain ⟨open', hopen', hsame'⟩ := List.any_eq_true.mp (h.opened other hother)
  refine List.any_eq_true.mpr ⟨open', hopen', ?_⟩
  rw [Path.sameAs, beq_iff_eq] at hsame hsame' ⊢
  exact hsame'.trans hsame

/-- Both loaders stay apart in their open files only when they go on to an included file, since the
root comes from its path. -/
theorem forInclude (h : Narrower l' l) (q : Path) : Narrower (l'.forInclude q) (l.forInclude q) :=
  ⟨rfl, h.mergeKeys, h.opened⟩

/-- The relation survives entering a file. It is all that the induction over nested loads carries
along. -/
theorem enter (h : Narrower l' l) (key : Path) : Narrower (l'.enter key) (l.enter key) := by
  refine ⟨h.root, h.mergeKeys, ?_⟩
  intro file hfile
  rw [isOpen_enter]
  rcases List.mem_cons.mp hfile with rfl | hfile
  · rw [Path.sameAs, beq_self_eq_true, Bool.true_or]
  · rw [h.opened file hfile, Bool.or_true]

end Narrower

/-- A text that is not cut off asks for no file that is. So the hypothesis of the laws below passes
from a load to the loads inside it. -/
theorem not_circular_of_asks {load : Path → Except Failure Value} {text : String} {path q : Path}
    (h : ¬ Circular (l.compose w load text path)) (hasks : l.Asks w load text q) :
    ¬ Circular (load q) := by
  rintro ⟨file, hload⟩
  exact h ⟨file, compose_eq_error_of_asks hasks hload⟩

/-- A file that is not cut off has the same outcome with fewer files open. The hypothesis is about
the load with more files open, because fewer of them can only cut off less. -/
theorem loadFile_of_narrower (h : Narrower l' l) (hload : ¬ Circular (l.loadFile w p).1) :
    (l'.loadFile w p).1 = (l.loadFile w p).1 := by
  induction l, p using load_induction (w := w) generalizing l' with
  | step l p ih =>
    have hclosed : l.isOpen (w.key p) = false → l'.isOpen (w.key p) = false := by
      rw [Bool.eq_false_iff, Bool.eq_false_iff]
      intro hopen hopen'
      exact hopen (h.isOpen hopen')
    obtain ⟨-, hout⟩ | ⟨fault, hopen, hread, hout⟩ | ⟨text, hopen, hread, hout⟩ :=
      loadFile_cases w l p
    · rw [hout] at hload
      exact absurd ⟨p, rfl⟩ hload
    · rw [hout, loadFile_of_unreadable (hclosed hopen) hread]
    · rw [hout] at hload ⊢
      rw [loadFile_of_read (hclosed hopen) hread]
      have hinside := h.enter (w.key p)
      refine compose_congr hinside.root hinside.mergeKeys (fun _ _ _ _ => rfl) ?_
      intro q hq
      exact ih text hopen hread q (hinside.forInclude q) (not_circular_of_asks hload hq)

/-- A text that is not cut off has the same outcome with fewer files open. The text itself is never
open, only the files that it includes may be. -/
theorem loadText_of_narrower (h : Narrower l' l) {text : String} {path : Path}
    (hload : ¬ Circular (l.loadText w text path).1) :
    (l'.loadText w text path).1 = (l.loadText w text path).1 := by
  refine compose_congr h.root h.mergeKeys (fun _ _ _ _ => rfl) ?_
  intro q hq
  exact loadFile_of_narrower (h.forInclude q) (not_circular_of_asks hload hq)

/-- An included file that is not cut off has the outcome that it has as a source of its own. The
root of the including loader does not count, for the directory of the file takes its place. -/
theorem load_file_alone (hload : ¬ Circular (l.included w p)) :
    YamlWeave.load w ⟨none, l.mergeKeys⟩ (.file p) = l.included w p := by
  have hnarrower : Narrower (Loader.new ⟨none, l.mergeKeys⟩ (.file p)) (l.forInclude p) :=
    ⟨rfl, rfl, fun _ h => absurd h List.not_mem_nil⟩
  exact loadFile_of_narrower hnarrower hload

/-- The documents that an operand names, loaded as sources of their own and put together. -/
def joinedAlone (w : World) (l : Loader) (operand : Value) : Except Failure Value := do
  let names ← operand.fileNames
  let documents ← names.mapM fun name => do
    let path := l.root / ⟨name⟩
    return (path, ← YamlWeave.load w ⟨none, l.mergeKeys⟩ (.file path))
  Include.joined documents

/-- A node that includes files and is not cut off puts together what these files are on their own.
Names that are refused and documents that do not fit are refused on both sides alike. -/
theorem included_files_alone {operand : Value}
    (h : ¬ Circular ((l.resolver w (l.included w)).included operand)) :
    (l.resolver w (l.included w)).included operand = l.joinedAlone w operand := by
  rw [joinedAlone]
  cases hnames : operand.fileNames with
  | error e =>
    rw [Resolver.included, hnames]
    rfl
  | ok names =>
    rw [Resolver.included_of_fileNames hnames, List.mapM_map] at h ⊢
    refine congrArg (· >>= Include.joined) (mapM_congr_of_reached ?_).symm
    intro front name back hsplit hfront
    -- The files before this one are loaded, so its failure would be the failure of the node.
    have hload : ¬ Circular (l.included w (l.root / ⟨name⟩)) := by
      rintro ⟨path, hpath⟩
      refine h ⟨path, bind_eq_error.mpr (.inl (mapM_eq_error.mpr ?_))⟩
      exact ⟨front, name, back, hsplit, hfront, Resolver.loadNamed_eq_error.mpr hpath⟩
    simp only [load_file_alone hload]
    rfl

/-- **Included documents are loaded as if alone.** A load that is not cut off for a cycle has the
same outcome with fewer files open. So including a file gives what loading it as a source of its own
gives, and a node that includes files puts the documents together that they are on their own. -/
theorem included_as_if_alone (w : World) (l : Loader) :
    (∀ l', Narrower l' l →
      (∀ p, ¬ Circular (l.loadFile w p).1 → (l'.loadFile w p).1 = (l.loadFile w p).1) ∧
      ∀ text path, ¬ Circular (l.loadText w text path).1 →
        (l'.loadText w text path).1 = (l.loadText w text path).1) ∧
    (∀ p, ¬ Circular ((l.forInclude p).loadFile w p).1 →
      YamlWeave.load w ⟨none, l.mergeKeys⟩ (.file p) = ((l.forInclude p).loadFile w p).1) ∧
    ∀ operand, ¬ Circular ((l.resolver w (l.included w)).included operand) →
      (l.resolver w (l.included w)).included operand = l.joinedAlone w operand :=
  ⟨fun _ h => ⟨fun _ => loadFile_of_narrower h, fun _ _ => loadText_of_narrower h⟩,
    fun _ => load_file_alone, fun _ => included_files_alone⟩

end Loader

end YamlWeave
