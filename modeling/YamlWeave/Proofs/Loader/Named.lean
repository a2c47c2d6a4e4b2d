import YamlWeave.Proofs.Loader.Visits
import YamlWeave.World.Host

/-!
# A load depends on what its documents name

The files of a load are its source and, from there on, all that documents list by name
(`Loader.NamedFile`). They are read off texts alone: what a variable holds plays no part in them,
because no name of a file is ever computed. A load looks up no other path
(`namedFile_of_visits`), and asks for no variable that none of these documents names. So files and
variables that are not named cannot change the outcome (`load_depends_on_named`).
-/

set_option autoImplicit false

namespace YamlWeave

namespace Loader

variable {w w' : World} {l : Loader} {p : Path} {source : Source}

/-- The source, and all files that documents list by name. Names in the source start from the root
of the loader, and those in another file from the directory of its path. -/
inductive NamedFile (w : World) (l : Loader) (source : Source) : Path → Prop
  | self {p : Path} (h : source = .file p) : NamedFile w l source p
  | top {v : Value} {name : String} (hvalue : source.Holds w v) (hname : v.Includes name) :
      NamedFile w l source (l.root / ⟨name⟩)
  | next {p : Path} {v : Value} {name : String} (hp : NamedFile w l source p)
      (hother : source ≠ .file p) (hvalue : (Source.file p).Holds w v) (hname : v.Includes name) :
      NamedFile w l source (p.directory / ⟨name⟩)

/-- The variables that the source or one of the files of a load names. -/
inductive NamedVariable (w : World) (l : Loader) (source : Source) : String → Prop
  | top {v : Value} {name : String} (hvalue : source.Holds w v) (hname : v.Consults name) :
      NamedVariable w l source name
  | file {p : Path} {v : Value} {name : String} (hp : NamedFile w l source p)
      (hvalue : (Source.file p).Holds w v) (hname : v.Consults name) :
      NamedVariable w l source name

/-- Where a call stands in a load: it is the load of the source itself, or it is that of an included
file, and then the source is open. -/
inductive Stands (w : World) (l : Loader) (source : Source) (c : Call) : Prop
  | first (hsource : source = .file c.path) (hroot : c.loader.root = l.root)
  | later (hroot : c.loader.root = c.path.directory)
      (hopen : ∀ file, source = .file file → c.loader.isOpen (w.key file) = true)

/-- A call that is made in the middle of a file of a load is about a file of the load again. The
names in the file start from the root or from the directory of the file, by where its call
stands. -/
theorem Stands.inside {c inner : Call} {text : String} (hnamed : l.NamedFile w source c.path)
    (hstands : Stands w l source c) (hreads : c.Reads w text)
    (hmakes : (c.inside w).Makes w text inner) :
    l.NamedFile w source inner.path ∧ Stands w l source inner := by
  obtain ⟨⟨v, hv, hasks⟩, hloader⟩ := hmakes
  obtain ⟨name, hname, hpath⟩ := hasks.includes
  have hholds : (Source.file c.path).Holds w v := ⟨text, hreads.2, hv⟩
  have hroot : inner.loader.root = inner.path.directory := by
    rw [hloader]
    rfl
  have hopens : ∀ file, inner.loader.isOpen file =
      ((w.key c.path).sameAs file || c.loader.isOpen file) := by
    intro file
    rw [hloader]
    rfl
  cases hstands with
  | first hsource hfirst =>
    have hpath : inner.path = l.root / ⟨name⟩ := by
      rw [hpath, ← hfirst]
      rfl
    refine ⟨hpath ▸ .top (hsource ▸ hholds) hname, .later hroot fun file hfile => ?_⟩
    obtain rfl : c.path = file := Source.file.inj (hsource.symm.trans hfile)
    rw [hopens, Path.sameAs, beq_self_eq_true, Bool.true_or]
  | later hlater hopen =>
    have hpath : inner.path = c.path.directory / ⟨name⟩ := by
      rw [hpath, ← hlater]
      rfl
    -- The source is open, and a file that is open is not read again.
    have hother : source ≠ .file c.path := by
      intro hsource
      have hclosed := hreads.1
      rw [hopen _ hsource] at hclosed
      cases hclosed
    refine ⟨hpath ▸ .next hnamed hother hholds hname, .later hroot fun file hfile => ?_⟩
    rw [hopens, hopen file hfile, Bool.or_true]

/-- Every call of a load is about one of its files. Where the call stands is kept beside it, to be
handed on to the calls inside. -/
theorem namedFile_of_nested {c : Call} {outer : List Call} (h : Nested w l source (c :: outer)) :
    l.NamedFile w source c.path ∧ Stands w l source c := by
  refine nested_induction (P := fun c _ => l.NamedFile w source c.path ∧ Stands w l source c)
    ?_ ?_ ?_ h
  · rintro p rfl
    exact ⟨.self rfl, .first rfl rfl⟩
  · rintro content c rfl hmakes
    obtain ⟨⟨v, hv, hasks⟩, hloader⟩ := hmakes
    obtain ⟨name, hname, hpath⟩ := hasks.includes
    rw [hpath]
    refine ⟨.top ⟨content, rfl, hv⟩ hname, .later ?_ fun _ h => nomatch h⟩
    rw [hloader]
    rfl
  · rintro c outer content inner ⟨hnamed, hstands⟩ hreads hmakes
    exact hstands.inside hnamed hreads hmakes

/-- A load looks up none but its files. Files of a load may be left alone, for instance behind a
failure. -/
theorem namedFile_of_visits (h : l.Visits w source p) : l.NamedFile w source p := by
  obtain ⟨c, outer, hnested, rfl⟩ := h
  exact (namedFile_of_nested hnested).1

/-- A file that reads alike in two worlds holds the same value in both. How it is recognised does
not matter for this. -/
theorem holds_of_read_eq (h : w'.read p = w.read p) {v : Value} :
    (Source.file p).Holds w' v ↔ (Source.file p).Holds w v := by
  simp only [Source.Holds, Source.text?, h]

/-- What the source holds is the same in worlds that agree on the files of the load. A text holds
the same everywhere. -/
theorem source_holds_iff
    (hread : ∀ p, l.NamedFile w source p → w'.read p = w.read p) {v : Value} :
    source.Holds w' v ↔ source.Holds w v := by
  cases source with
  | file p => exact holds_of_read_eq (hread p (.self rfl))
  | text content => exact Iff.rfl

/-- The files of a load are the same in worlds that agree on their texts, whatever the variables
hold. This is why the hypotheses of the law below may speak of the files in one of the worlds
alone. -/
theorem namedFile_iff (hread : ∀ p, l.NamedFile w source p → w'.read p = w.read p) :
    l.NamedFile w' source p ↔ l.NamedFile w source p := by
  constructor
  · intro h
    induction h with
    | self h => exact .self h
    | top hvalue hname => exact .top ((source_holds_iff hread).mp hvalue) hname
    | next _ hother hvalue hname ih =>
      exact .next ih hother ((holds_of_read_eq (hread _ ih)).mp hvalue) hname
  · intro h
    induction h with
    | self h => exact .self h
    | top hvalue hname => exact .top ((source_holds_iff hread).mpr hvalue) hname
    | next hp hother hvalue hname ih =>
      exact .next ih hother ((holds_of_read_eq (hread _ hp)).mpr hvalue) hname

/-- **A load depends only on what its documents name.** Let two worlds agree on the files that the
source and, from there on, the documents list by name. Then the files are the same in both, whatever
the variables hold, and in neither world does the load look up another path. When the worlds also
agree on the variables that these documents name, the outcomes are the same, value or failure. -/
theorem load_depends_on_named (w w' : World) (l : Loader) (source : Source)
    (hcanonical : ∀ p, l.NamedFile w source p → w'.canonical? p = w.canonical? p)
    (hread : ∀ p, l.NamedFile w source p → w'.read p = w.read p) :
    (∀ p, l.NamedFile w' source p ↔ l.NamedFile w source p) ∧
    (∀ p, l.Visits w source p ∨ l.Visits w' source p → l.NamedFile w source p) ∧
    ((∀ name, l.NamedVariable w source name → w'.valueOf? name = w.valueOf? name) →
      (l.load w' source).1 = (l.load w source).1) := by
  refine ⟨fun p => namedFile_iff hread, fun p h => ?_, fun hvariables => load_of_agrees ?_⟩
  · rcases h with h | h
    · exact namedFile_of_visits h
    · exact (namedFile_iff hread).mp (namedFile_of_visits h)
  · constructor
    · exact fun p hp => hcanonical p (namedFile_of_visits hp)
    · exact fun p hp => hread p (namedFile_of_visits hp)
    · exact fun v name hvalue hname => hvariables name (.top hvalue hname)
    · exact fun p v name hp hvalue hname =>
        hvariables name (.file (namedFile_of_visits hp) hvalue hname)

end Loader

/-- A host with two files and two variables. -/
def Host.sample (g b : String) : Host where
  disk := ⟨[(["f"], .file "x: !env A".toUTF8), (["g"], .file g.toUTF8)], []⟩
  bindings := [("A", "1".toUTF8), ("B", b.toUTF8)]

/-- A text that includes `/f` names this file alone, which names one variable. The hosts of the
sample differ in a file and in a variable that nothing names. -/
theorem Host.eq_of_named_sample {g b : String}
    (hf : (Host.sample g b).world.read ⟨"/f"⟩ = .ok "x: !env A") :
    (∀ p, (Loader.withRoot .here).NamedFile (Host.sample g b).world (.text "k: !include /f") p →
      p = ⟨"/f"⟩) ∧
    ∀ name, (Loader.withRoot .here).NamedVariable (Host.sample g b).world
      (.text "k: !include /f") name → name = "A" := by
  have htop : (Source.text "k: !include /f").Holds (Host.sample g b).world
      (.mapping [(.string "k", .tagged ⟨"include"⟩ (.string "/f"))]) :=
    ⟨_, rfl, by decide +kernel⟩
  have hfile : (Source.file ⟨"/f"⟩).Holds (Host.sample g b).world
      (.mapping [(.string "x", .tagged ⟨"env"⟩ (.string "A"))]) :=
    ⟨_, hf, by decide +kernel⟩
  have hnamed : ∀ p, (Loader.withRoot .here).NamedFile (Host.sample g b).world
      (.text "k: !include /f") p → p = ⟨"/f"⟩ := by
    intro p h
    induction h with
    | self h => cases h
    | top hvalue hname =>
      rw [hvalue.eq htop, ← Value.mem_includedNames] at hname
      rw [List.mem_singleton.mp hname]
      rfl
    | next _ _ hvalue hname ih =>
      subst ih
      rw [hvalue.eq hfile, ← Value.mem_includedNames] at hname
      exact absurd hname List.not_mem_nil
  refine ⟨hnamed, fun name h => ?_⟩
  cases h with
  | top hvalue hname =>
    rw [hvalue.eq htop, ← Value.mem_consultedNames] at hname
    exact absurd hname List.not_mem_nil
  | file hp hvalue hname =>
    rw [hnamed _ hp] at hvalue
    rw [hvalue.eq hfile, ← Value.mem_consultedNames] at hname
    exact List.mem_singleton.mp hname

/-- What an unnamed file holds, and what an unnamed variable is set to, makes no difference to the
load. Both hypotheses are checked for the one file that is named. -/
theorem load_sample_eq :
    (∀ p, (Loader.withRoot .here).NamedFile (Host.sample "1" "2").world (.text "k: !include /f") p →
      (Host.sample "3" "4").world.canonical? p = (Host.sample "1" "2").world.canonical? p) ∧
    (∀ p, (Loader.withRoot .here).NamedFile (Host.sample "1" "2").world (.text "k: !include /f") p →
      (Host.sample "3" "4").world.read p = (Host.sample "1" "2").world.read p) ∧
    ((Loader.withRoot .here).load (Host.sample "3" "4").world (.text "k: !include /f")).1 =
      ((Loader.withRoot .here).load (Host.sample "1" "2").world (.text "k: !include /f")).1 := by
  obtain ⟨hfiles, hvariables⟩ := Host.eq_of_named_sample (g := "1") (b := "2") (by decide +kernel)
  have hcanonical : ∀ p, (Loader.withRoot .here).NamedFile (Host.sample "1" "2").world
      (.text "k: !include /f") p →
        (Host.sample "3" "4").world.canonical? p = (Host.sample "1" "2").world.canonical? p := by
    intro p hp
    rw [hfiles p hp]
    decide +kernel
  have hread : ∀ p, (Loader.withRoot .here).NamedFile (Host.sample "1" "2").world
      (.text "k: !include /f") p →
        (Host.sample "3" "4").world.read p = (Host.sample "1" "2").world.read p := by
    intro p hp
    rw [hfiles p hp]
    decide +kernel
  refine ⟨hcanonical, hread, ?_⟩
  refine (Loader.load_depends_on_named _ _ _ _ hcanonical hread).2.2 fun name hname => ?_
  rw [hvariables name hname]
  decide +kernel

end YamlWeave
