import YamlWeave.Proofs.Loader.Visits
import YamlWeave.Proofs.Session
import YamlWeave.Proofs.World.Walk

/-!
# Loads from an absolute start

A load whose loader has an absolute root, and whose source is a text or a file with an absolute
path, looks up absolute paths only, at whatever depth (`isAbsolute_of_visits`). So its outcome, the
paths in a failure included, is the same from every current directory
(`load_ignores_current_directory`).

Every included file makes a root of its own, the directory of its path. This root is the empty one,
which stands for the current directory, only for absolute paths without a name, such as `/` and
`/.`. These lead to the root directory, and a root that no document is read under is never used.
-/

set_option autoImplicit false

namespace YamlWeave

/-- The root directory is no file: an absolute path without a name cannot be read. -/
def World.Rooted (w : World) : Prop :=
  ∀ p text, w.read p = .ok text → p.isAbsolute = true → p.names ≠ []

namespace Disk

variable {d : Disk} {follow : Location → List String → Except ReadFault Destination}
  {location : Location} {p : Path}

/-- Segments that do not count lead nowhere else, whatever links there are. Only the starting place
has to be a directory, since a segment is followed even when it stays where it is. -/
theorem walkWith_of_not_counts (hlocation : d.isDirectory location = true) {segments : List String}
    (h : segments.filter Path.counts = []) :
    d.walkWith follow location segments = .ok (.found location) := by
  induction segments with
  | nil => rfl
  | cons segment segments ih =>
    rw [List.filter_eq_nil_iff, List.forall_mem_cons] at h
    have hidle : segment = "" ∨ segment = "." := by
      by_contra hne
      exact h.1 (counts_eq_true.mpr (not_or.mp hne))
    rw [walkWith, ih (List.filter_eq_nil_iff.mpr h.2)]
    simp [hlocation, hidle]

/-- An absolute path without a name leads to the root directory, if anywhere. That it may fail is
left open, as by a zero in its text. -/
theorem eq_nil_of_follow (habsolute : p.isAbsolute = true) (hnames : p.names = [])
    (h : d.follow p = .ok (.found location)) : location = [] := by
  obtain ⟨-, -, hwalk⟩ := follow_eq_ok.mp h
  have horigin : d.origin p = [] := by rw [origin, habsolute, if_pos rfl]
  have hsteps : p.steps.filter Path.counts = [] := by rw [Path.filter_steps, hnames]
  rw [horigin, linkLimit, walk, walkWith_of_not_counts rfl hsteps] at hwalk
  cases hwalk
  rfl

/-- A path that is read and absolute has a name: without one it would lead to the root directory,
and a directory has no text. -/
theorem names_ne_nil_of_read {text : String} (h : d.read p = .ok text)
    (habsolute : p.isAbsolute = true) : p.names ≠ [] := by
  intro hnames
  obtain ⟨-, file, content, hfollow, hitem, -⟩ := read_eq_ok.mp h
  rw [eq_nil_of_follow habsolute hnames hfollow] at hitem
  cases hitem

/-- What an absolute path holds does not depend on the current directory. -/
theorem read_seenFrom (here : Location) (hp : p.isAbsolute = true) :
    (d.seenFrom here).read p = d.read p := by
  rw [Disk.read, Disk.read, follow_seenFrom hp]
  rfl

theorem canonical?_seenFrom (here : Location) (hp : p.isAbsolute = true) :
    (d.seenFrom here).canonical? p = d.canonical? p := by
  rw [Disk.canonical?, Disk.canonical?, follow_seenFrom hp]

end Disk

namespace Host

/-- The same host with another current directory. -/
def seenFrom (host : Host) (here : Location) : Host :=
  { host with disk := host.disk.seenFrom here }

/-- No host has a text at its root directory. This is what a world needs so that the directory of a
path that is read is absolute again. -/
theorem rooted (host : Host) : host.world.Rooted :=
  fun _ _ hread => Disk.names_ne_nil_of_read hread

end Host

namespace Loader

variable {w : World} {l : Loader} {source : Source}

/-- A call is about an absolute path, and the names in its file start from an absolute root. -/
structure Call.Anchored (w : World) (c : Call) : Prop where
  path : c.path.isAbsolute = true
  root : ∀ text, w.read c.path = .ok text → c.loader.root.isAbsolute = true

/-- A load starts from an absolute place: the path of its file is absolute, and if its text is
there, so is the root for the names in it. -/
structure Anchored (w : World) (l : Loader) (source : Source) : Prop where
  path : ∀ p, source = .file p → p.isAbsolute = true
  root : ∀ text, source.text? w = .ok text → l.root.isAbsolute = true

/-- A call that is made under an absolute root is anchored. The name in the document may be
relative, or lead out of the root by two dots: only where its path starts counts. -/
theorem Makes.anchored (hw : w.Rooted) (hroot : l.root.isAbsolute = true) {text : String}
    {c : Call} (hmakes : l.Makes w text c) : c.Anchored w := by
  obtain ⟨⟨v, -, hasks⟩, hloader⟩ := hmakes
  obtain ⟨name, -, hpath⟩ := hasks.includes
  have habsolute : c.path.isAbsolute = true := by
    rw [hpath]
    exact Path.isAbsolute_join_of_isAbsolute hroot ⟨name⟩
  refine ⟨habsolute, fun text hread => ?_⟩
  rw [hloader]
  exact Path.isAbsolute_directory_of_names habsolute (hw c.path text hread habsolute)

/-- All calls of a load that starts from an absolute place are anchored. A file is a call itself,
and a text makes calls with the root of its loader. -/
theorem anchored_of_nested (hw : w.Rooted) (hstart : Anchored w l source) {c : Call}
    {outer : List Call} (h : Nested w l source (c :: outer)) : c.Anchored w := by
  refine nested_induction (P := fun c _ => c.Anchored w) ?_ ?_ ?_ h
  · rintro p rfl
    exact ⟨hstart.path p rfl, hstart.root⟩
  · rintro content c rfl hmakes
    exact hmakes.anchored hw (hstart.root content rfl)
  · intro c outer content inner ih hreads hmakes
    have hroot : (c.inside w).root.isAbsolute = true := ih.root content hreads.2
    exact hmakes.anchored hw hroot

/-- A load that starts from an absolute place looks up absolute paths only. Paths that are looked up
and found missing are among them. -/
theorem isAbsolute_of_visits (hw : w.Rooted) (hstart : Anchored w l source) {p : Path}
    (h : l.Visits w source p) : p.isAbsolute = true := by
  obtain ⟨c, outer, hnested, rfl⟩ := h
  exact (anchored_of_nested hw hstart hnested).path

/-- A load that starts from an absolute place has one outcome from everywhere. The two worlds differ
on relative paths alone, and no such path is looked up. -/
theorem load_seenFrom {host : Host} (hstart : Anchored host.world l source) (here : Location) :
    l.load (host.seenFrom here).world source = l.load host.world source := by
  have habsolute : ∀ {p}, l.Visits host.world source p → p.isAbsolute = true :=
    isAbsolute_of_visits host.rooted hstart
  have hagrees : Agrees host.world (host.seenFrom here).world l source :=
    { canonical? := fun p hp => Disk.canonical?_seenFrom here (habsolute hp)
      read := fun p hp => Disk.read_seenFrom here (habsolute hp)
      own := fun _ _ _ _ => rfl
      included := fun _ _ _ _ _ _ => rfl }
  refine Prod.ext (load_of_agrees hagrees) ?_
  rw [loader_of_load, loader_of_load]

/-- A loader that is built for a file with an absolute path starts from an absolute place, unless it
is given another root. The directory of the file is absolute as soon as the file can be read. -/
theorem anchored_new {p : Path} (hw : w.Rooted) (hp : p.isAbsolute = true) (mergeKeys : Bool) :
    Anchored w (Loader.new ⟨none, mergeKeys⟩ (.file p)) (.file p) := by
  constructor
  · rintro q hq
    cases hq
    exact hp
  · intro text hread
    exact Path.isAbsolute_directory_of_names hp (hw p text hread hp)

end Loader

/-- **A load from an absolute start ignores the current directory.** Let the root of a loader be
absolute, whatever files it has open, and the source a text or a file with an absolute path. Then
every path that the load looks up, at any depth, is absolute, and the load comes out the same from
every current directory, failures with the paths that they name included. Loading a file by its
absolute path without any root is such a load. -/
theorem load_ignores_current_directory (host : Host) (source : Source)
    (hsource : ∀ p, source = .file p → p.isAbsolute = true) :
    (∀ l : Loader, l.root.isAbsolute = true →
      (∀ p, l.Visits host.world source p → p.isAbsolute = true) ∧
      ∀ here, l.load (host.seenFrom here).world source = l.load host.world source) ∧
    ∀ p mergeKeys, source = .file p → ∀ here,
      load (host.seenFrom here).world ⟨none, mergeKeys⟩ source =
        load host.world ⟨none, mergeKeys⟩ source := by
  constructor
  · intro l hroot
    have hstart : Loader.Anchored host.world l source := ⟨hsource, fun _ _ => hroot⟩
    exact ⟨fun _ => Loader.isAbsolute_of_visits host.rooted hstart,
      fun here => Loader.load_seenFrom hstart here⟩
  · rintro p mergeKeys rfl here
    have hstart := Loader.anchored_new host.rooted (hsource p rfl) mergeKeys
    exact congrArg Prod.fst (Loader.load_seenFrom hstart here)

/-- A host with a file that includes another one by way of the directory above. -/
def Host.neighbours (here : Location) : Host where
  disk := ⟨[(["a"], .directory), (["a", "f"], .file "x: !include ../b/g".toUTF8),
    (["b"], .directory), (["b", "g"], .file "y: 1".toUTF8)], here⟩
  bindings := []

/-- A file that includes another one by way of the directory above is loaded while `/a`, and then
`/b`, is the current directory. The path and the root start at the root directory, so nothing
changes. -/
theorem load_neighbours :
    (∀ p, Source.file ⟨"/a/f"⟩ = .file p → p.isAbsolute = true) ∧
    (Loader.withRoot ⟨"/a"⟩).root.isAbsolute = true ∧
    ((Loader.withRoot ⟨"/a"⟩).load (Host.neighbours ["b"]).world (.file ⟨"/a/f"⟩)).1 =
      .ok (.mapping [(.string "x", .mapping [(.string "y", .int 1)])]) := by
  have hsource : ∀ p, Source.file ⟨"/a/f"⟩ = .file p → p.isAbsolute = true := by
    intro p hp
    rw [← Source.file.inj hp]
    decide
  have hroot : (Loader.withRoot ⟨"/a"⟩).root.isAbsolute = true := by decide
  refine ⟨hsource, hroot, ?_⟩
  have hload := (load_ignores_current_directory (Host.neighbours ["a"]) _ hsource).1 _ hroot
  refine (congrArg Prod.fst (hload.2 ["b"])).trans ?_
  decide +kernel

end YamlWeave
