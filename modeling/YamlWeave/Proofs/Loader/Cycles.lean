import YamlWeave.Proofs.Loader.Documents

/-!
# The guard against cycles is exact

A **chain** of a load is a list of paths that starts with the file that is loaded and goes on, from
each path, with one that its document includes. Chains are read off the texts of files alone: what a
load gets to, what it has open and where it fails plays no part in them.

A load that has an outcome met no cycle in any chain (`distinct_of_chain`), and a load that fails
for a cycle met one at the end of some chain (`exists_chain_of_circular`). So loads of one file
beside each other, rather than inside each other, never fail for a cycle.
-/

set_option autoImplicit false

namespace YamlWeave

/-- The document of a path lists a name in a node that includes files. -/
def World.Lists (w : World) (p : Path) (name : String) : Prop :=
  ∃ text v, w.read p = .ok text ∧ Document.value? text = some v ∧ v.Includes name

/-- Paths that start with `p`, each one included by the document of the one before. Names in the
first document start from the directory `root`, and those in the later ones from the directories
of their paths. -/
inductive Chain (w : World) : Path → Path → List Path → Prop
  | last (root p : Path) : Chain w root p [p]
  | next {root p q : Path} {name : String} {paths : List Path} (hname : w.Lists p name)
      (hq : q = root / ⟨name⟩) (h : Chain w q.directory q paths) : Chain w root p (p :: paths)

/-- The chains of a load. Those of a text start with the paths that it includes. -/
inductive ChainOf (w : World) (options : Options) : Source → List Path → Prop
  | file {p : Path} {paths : List Path} (h : Chain w (options.rootFor (.file p)) p paths) :
      ChainOf w options (.file p) paths
  | text {content : String} {v : Value} {name : String} {q : Path} {paths : List Path}
      (hvalue : Document.value? content = some v) (hname : v.Includes name)
      (hq : q = options.rootFor (.text content) / ⟨name⟩) (h : Chain w q.directory q paths) :
      ChainOf w options (.text content) paths

/-- No two of the paths are recognised by the same. -/
def World.Distinct (w : World) (paths : List Path) : Prop :=
  paths.Pairwise fun p q => (w.key p).sameAs (w.key q) = false

namespace Loader

variable {w : World} {l : Loader} {p : Path}

/-- A document that comes out has the documents of all the files that it lists. There is no way to
list a file without loading it. -/
theorem included_of_compose_eq_ok {text : String} {path : Path} {D v : Value} {name : String}
    (h : l.compose w (l.included w) text path = .ok D) (hv : Document.value? text = some v)
    (hname : v.Includes name) : ∃ u, l.included w (l.root / ⟨name⟩) = .ok u := by
  obtain ⟨v', u, hv', hu, -⟩ := compose_eq_ok.mp h
  rw [hv] at hv'
  cases hv'
  exact Value.exists_load_of_resolved_eq_ok hu hname

/-- A file that is loaded starts chains of distinct files only, and none of them was open. The
second half is what carries the induction: each file of the chain is checked against all that are
open around it. -/
theorem distinct_of_chain {root : Path} {paths : List Path} (h : Chain w root p paths)
    (hroot : l.root = root) {D : Value} (hload : (l.loadFile w p).1 = .ok D) :
    w.Distinct paths ∧ ∀ q ∈ paths, l.isOpen (w.key q) = false := by
  induction h generalizing l D with
  | last root p =>
    refine ⟨List.pairwise_singleton _ p, ?_⟩
    intro q hq
    rw [List.mem_singleton.mp hq]
    by_contra hopen
    rw [loadFile_of_isOpen (Bool.not_eq_false _ ▸ hopen)] at hload
    cases hload
  | @next root p q name paths hname hq _ ih =>
    obtain ⟨text, v, hread, hv, hincludes⟩ := hname
    obtain ⟨-, hout⟩ | ⟨fault, -, hfault, -⟩ | ⟨text', hopen, hread', hout⟩ := loadFile_cases w l p
    · rw [hout] at hload
      cases hload
    · rw [hread] at hfault
      cases hfault
    · rw [hread] at hread'
      cases hread'
      rw [hout] at hload
      obtain ⟨u, hu⟩ := included_of_compose_eq_ok hload hv hincludes
      have hpath : (l.enter (w.key p)).root / ⟨name⟩ = q := by
        rw [hq, ← hroot]
        rfl
      rw [hpath] at hu
      obtain ⟨hdistinct, hclosed⟩ := ih rfl hu
      -- What is closed inside the file is another one than the file, and was closed outside.
      have hinside : ∀ x ∈ paths,
          (w.key p).sameAs (w.key x) = false ∧ l.isOpen (w.key x) = false :=
        fun x hx => Bool.or_eq_false_iff.mp (hclosed x hx)
      refine ⟨List.pairwise_cons.mpr ⟨fun x hx => (hinside x hx).1, hdistinct⟩, ?_⟩
      intro x hx
      rcases List.mem_cons.mp hx with rfl | hx
      · exact hopen
      · exact (hinside x hx).2

/-- A file that is not loaded for a cycle starts a chain to the path that is named. It ends at a
file that the chain has met, or at one that was open. At the source no file is open, which leaves
the first case. -/
theorem exists_chain_of_circular {path : Path}
    (h : (l.loadFile w p).1 = .error (.circularInclude path)) :
    ∃ paths, Chain w l.root p (paths ++ [path]) ∧
      ((∃ earlier ∈ paths, (w.key earlier).sameAs (w.key path) = true) ∨
        l.isOpen (w.key path) = true) := by
  induction l, p using load_induction (w := w) with
  | step l p ih =>
    obtain ⟨hopen, hout⟩ | ⟨fault, -, -, hout⟩ | ⟨text, hopen, hread, hout⟩ := loadFile_cases w l p
    · rw [hout] at h
      cases h
      exact ⟨[], .last _ path, .inr hopen⟩
    · rw [hout] at h
      cases h
    · rw [hout] at h
      obtain ⟨q, ⟨v, hv, hasks⟩, hq⟩ := exists_asks_of_compose_circular h
      obtain ⟨name, hname, hpath⟩ := hasks.includes
      obtain ⟨paths, hchain, hend⟩ := ih text hopen hread q hq
      refine ⟨p :: paths, .next ⟨text, v, hread, hv, hname⟩ hpath hchain, ?_⟩
      rcases hend with ⟨earlier, hmem, hsame⟩ | hinside
      · exact .inl ⟨earlier, List.mem_cons_of_mem p hmem, hsame⟩
      · rcases Bool.or_eq_true_iff.mp hinside with hsame | houtside
        · exact .inl ⟨p, List.mem_cons_self, hsame⟩
        · exact .inr houtside

end Loader

/-- A load that has a document has chains of distinct files only. Chains are read off the texts of
files, so nothing is assumed of how the load went. -/
theorem distinct_of_load_eq_ok {w : World} {options : Options} {source : Source} {document : Value}
    (h : load w options source = .ok document) {paths : List Path}
    (hchain : ChainOf w options source paths) : w.Distinct paths := by
  cases hchain with
  | file hchain => exact (Loader.distinct_of_chain hchain rfl h).1
  | text hvalue hname hq hchain =>
    obtain ⟨u, hu⟩ := Loader.included_of_compose_eq_ok h hvalue hname
    subst hq
    exact (Loader.distinct_of_chain hchain rfl hu).1

/-- A load that fails for a cycle has a chain that ends at the path that is named, and met its file
before. The two may be spelled differently: what recurs is the file. -/
theorem exists_chainOf_of_circular {w : World} {options : Options} {source : Source} {path : Path}
    (h : load w options source = .error (.circularInclude path)) :
    ∃ paths, ChainOf w options source (paths ++ [path]) ∧
      ∃ earlier ∈ paths, (w.key earlier).sameAs (w.key path) = true := by
  cases source with
  | file p =>
    obtain ⟨paths, hchain, hearlier | hopen⟩ := Loader.exists_chain_of_circular h
    · exact ⟨paths, .file hchain, hearlier⟩
    · cases hopen
  | text content =>
    obtain ⟨q, ⟨v, hv, hasks⟩, hq⟩ := Loader.exists_asks_of_compose_circular h
    obtain ⟨name, hname, hpath⟩ := hasks.includes
    obtain ⟨paths, hchain, hearlier | hopen⟩ := Loader.exists_chain_of_circular hq
    · exact ⟨paths, .text hv hname hpath hchain, hearlier⟩
    · cases hopen

/-- **The guard against cycles is exact.** A load that has a document has no chain with two paths of
one file. A load that fails for a cycle has a chain that ends at the path it names, where it comes
back to a file that it met before. So without such a chain no load fails for a cycle. -/
theorem cycle_guard_exact (w : World) (options : Options) (source : Source) :
    (∀ document, load w options source = .ok document →
      ∀ paths, ChainOf w options source paths → w.Distinct paths) ∧
    (∀ path, load w options source = .error (.circularInclude path) →
      ∃ paths, ChainOf w options source (paths ++ [path]) ∧
        ∃ earlier ∈ paths, (w.key earlier).sameAs (w.key path) = true) ∧
    ((∀ paths, ChainOf w options source paths → w.Distinct paths) →
      ∀ path, load w options source ≠ .error (.circularInclude path)) := by
  refine ⟨fun _ h _ hchain => distinct_of_load_eq_ok h hchain,
    fun _ h => exists_chainOf_of_circular h, fun hdistinct path h => ?_⟩
  obtain ⟨paths, hchain, earlier, hmem, hsame⟩ := exists_chainOf_of_circular h
  have hne := (List.pairwise_append.mp (hdistinct _ hchain)).2.2 earlier hmem path
    List.mem_cons_self
  rw [hsame] at hne
  cases hne

end YamlWeave
