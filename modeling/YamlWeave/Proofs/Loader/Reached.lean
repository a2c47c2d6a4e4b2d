import YamlWeave.Proofs.Loader.Alone
import YamlWeave.Proofs.Loader.Cycles

/-!
# The loads that a load reaches

An included file is loaded as it is on its own, so a load consists of loads of sources: its own and
those of the files that its document includes, and so on (`Reaches`). No stack of open files appears
in this. The sources reached are the source itself and the files at the ends of chains (`Meets`).

A load succeeds only where all loads that it reaches succeed (`exists_ok_of_reaches`). It fails,
apart from cycles, only because one of them is refused for its own sake
(`exists_refused_of_load_eq_error`).
-/

set_option autoImplicit false

namespace YamlWeave

namespace Source

/-- The text of a source. -/
def text? (w : World) : Source → Except ReadFault String
  | .file p => w.read p
  | .text content => .ok content

/-- The text of a source can be read, and this is its value. -/
def Holds (w : World) (source : Source) (v : Value) : Prop :=
  ∃ text, source.text? w = .ok text ∧ Document.value? text = some v

theorem Holds.eq {w : World} {source : Source} {u v : Value} (hu : source.Holds w u)
    (hv : source.Holds w v) : u = v := by
  obtain ⟨text, htext, hu⟩ := hu
  obtain ⟨text', htext', hv⟩ := hv
  cases htext.symm.trans htext'
  exact Option.some.inj (hu.symm.trans hv)

end Source

/-- The document of a file on its own. -/
def loadAlone (w : World) (mergeKeys : Bool) (p : Path) : Except Failure Value :=
  load w ⟨none, mergeKeys⟩ (.file p)

/-- A source holds a value whose tags are resolved to `u`, where the files that it includes are
loaded on their own. -/
def Source.ResolvesTo (w : World) (options : Options) (source : Source) (u : Value) : Prop :=
  ∃ v, source.Holds w v ∧
    v.resolved ((Loader.new options source).resolver w (loadAlone w options.mergeKeys)) = .ok u

/-- A source is the one that is loaded, or the file at the end of a chain of the load. -/
inductive Meets (w : World) (options : Options) (source : Source) : Source → Prop
  | self : Meets w options source source
  | file {paths : List Path} {p : Path} (h : ChainOf w options source (paths ++ [p])) :
      Meets w options source (.file p)

/-- A load comes to another load: itself, or what a load comes to of a file that its document
includes. -/
inductive Reaches (w : World) : Options → Source → Options → Source → Prop
  | self (options : Options) (source : Source) : Reaches w options source options source
  | next {options options' : Options} {source source' : Source} {v : Value} {name : String}
      {q : Path} (hvalue : source.Holds w v) (hname : v.Includes name)
      (hq : q = options.rootFor source / ⟨name⟩)
      (h : Reaches w ⟨none, options.mergeKeys⟩ (.file q) options' source') :
      Reaches w options source options' source'

/-- A load is refused for its own sake: its file cannot be read, or its text is at fault where files
that it includes are loaded on their own. -/
inductive Refused (w : World) (options : Options) : Source → Failure → Prop
  | unreadable {p : Path} {fault : ReadFault} (hread : w.read p = .error fault) :
      Refused w options (.file p) (.unreadable p fault)
  | text {source : Source} {text : String} {e : Failure} (htext : source.text? w = .ok text)
      (hfault : (Loader.new options source).AtFault w (loadAlone w options.mergeKeys) text
        source.name e) : Refused w options source e

variable {w : World} {options options' : Options} {source source' : Source}

/-- The chains of an included file are ends of chains of the source that includes it. In front of
them stands the source itself when it is a file, and nothing when it is a text. -/
theorem exists_chainOf_of_includes {v : Value} {name : String} {q : Path} {paths : List Path}
    (hvalue : source.Holds w v) (hname : v.Includes name) (hq : q = options.rootFor source / ⟨name⟩)
    (h : Chain w q.directory q paths) : ∃ front, ChainOf w options source (front ++ paths) := by
  obtain ⟨text, htext, hvalue⟩ := hvalue
  cases source with
  | file p => exact ⟨[p], .file (.next ⟨text, v, htext, hvalue, hname⟩ hq h)⟩
  | text content =>
    cases htext
    exact ⟨[], .text hvalue hname hq h⟩

namespace Reaches

/-- Loads that are reached from a load that is reached are reached. -/
theorem trans {options'' : Options} {source'' : Source}
    (h : Reaches w options source options' source')
    (h' : Reaches w options' source' options'' source'') :
    Reaches w options source options'' source'' := by
  induction h with
  | self => exact h'
  | next hvalue hname hq _ ih => exact .next hvalue hname hq (ih h')

/-- All loads that are reached treat merge keys alike. They may differ in their roots. -/
theorem mergeKeys (h : Reaches w options source options' source') :
    options'.mergeKeys = options.mergeKeys := by
  induction h with
  | self => rfl
  | next _ _ _ _ ih => exact ih

/-- A source whose load is reached is met. Here the way of loads is turned into a chain of paths, of
which a load itself knows nothing. -/
theorem meets (h : Reaches w options source options' source') : Meets w options source source' := by
  induction h with
  | self => exact .self
  | @next options _ source source' v name q hvalue hname hq _ ih =>
    cases ih with
    | self =>
      obtain ⟨front, hchain⟩ := exists_chainOf_of_includes hvalue hname hq (.last _ q)
      exact .file hchain
    | @file paths p hchain =>
      cases hchain with
      | file hchain =>
        obtain ⟨front, hchain⟩ := exists_chainOf_of_includes hvalue hname hq hchain
        exact .file (List.append_assoc front paths [p] ▸ hchain)

end Reaches

/-- Every path in the chains of a file is reached. The options that it is reached with only fix its
root, which is the directory of its path unless it is the source. -/
theorem reaches_of_chain {root p : Path} {paths : List Path} (h : Chain w root p paths)
    (hroot : options.rootFor (.file p) = root) {q : Path} (hq : q ∈ paths) :
    ∃ options', Reaches w options (.file p) options' (.file q) := by
  induction h generalizing options with
  | last root p => exact ⟨options, List.mem_singleton.mp hq ▸ .self options (.file q)⟩
  | @next root p file name paths hname hfile _ ih =>
    rcases List.mem_cons.mp hq with rfl | hq
    · exact ⟨options, .self options (.file q)⟩
    · obtain ⟨text, v, hread, hvalue, hname⟩ := hname
      have hfileRoot : Options.rootFor ⟨none, options.mergeKeys⟩ (.file file) = file.directory :=
        rfl
      obtain ⟨options', h⟩ := ih hfileRoot hq
      exact ⟨options', .next ⟨text, hread, hvalue⟩ hname (hroot ▸ hfile) h⟩

/-- The load of a source that is met is reached. With `Reaches.meets` the two ways to follow
inclusions are the same, one by paths and one by loads. -/
theorem Meets.reaches (h : Meets w options source source') :
    ∃ options', Reaches w options source options' source' := by
  cases h with
  | self => exact ⟨options, .self options source⟩
  | @file paths q hchain =>
    have hq : q ∈ paths ++ [q] := List.mem_append_right paths List.mem_cons_self
    cases hchain with
    | file h => exact reaches_of_chain h rfl hq
    | @text _ _ _ file _ hvalue hname hfile h =>
      have hfileRoot : Options.rootFor ⟨none, options.mergeKeys⟩ (.file file) = file.directory :=
        rfl
      obtain ⟨options', h⟩ := reaches_of_chain h hfileRoot hq
      exact ⟨options', .next ⟨_, rfl, hvalue⟩ hname hfile h⟩

namespace Loader

variable {l : Loader} {p : Path} {text : String} {e : Failure}

/-- Files that are loaded on their own are at least those that are loaded as included ones. There
may be more of them, since fewer files are open. -/
theorem alone_extends (hroot : l.root = options.rootFor source)
    (hmergeKeys : l.mergeKeys = options.mergeKeys) :
    ((Loader.new options source).resolver w (loadAlone w options.mergeKeys)).Extends
      (l.resolver w (l.included w)) where
  root := hroot.symm
  valueOf? := rfl
  load q document h := by
    have hcircular : ¬ Circular (l.included w q) := by
      rintro ⟨path, hpath⟩
      have hload : l.included w q = .ok document := h
      rw [hpath] at hload
      cases hload
    exact hmergeKeys ▸ (load_file_alone hcircular).trans h

/-- A text is at fault itself whatever is open while it is composed. So blame can be stated with
loads of single files, and without a stack. -/
theorem atFault_alone (hroot : l.root = options.rootFor source)
    (hmergeKeys : l.mergeKeys = options.mergeKeys)
    (h : l.AtFault w (l.included w) text source.name e) :
    (Loader.new options source).AtFault w (loadAlone w options.mergeKeys) text source.name e := by
  have hextends := alone_extends (w := w) hroot hmergeKeys
  cases h with
  | notYaml hvalue => exact .notYaml hvalue
  | node hvalue hnode hfault => exact .node hvalue hnode (hextends.atFault hfault)
  | unmergeable hvalue hresolved hmerge hmerged =>
    exact .unmergeable hvalue (hextends.resolved hresolved) (hmergeKeys.symm.trans hmerge) hmerged

/-- A text that has no document includes a file that has none, or is at fault itself. The hypothesis
on included files is the induction hypothesis of the next law. -/
theorem exists_refused_of_compose (hroot : l.root = options.rootFor source)
    (hmergeKeys : l.mergeKeys = options.mergeKeys) (htext : source.text? w = .ok text)
    (h : l.compose w (l.included w) text source.name = .error e)
    (hincluded : ∀ q, l.included w q = .error e →
      ∃ options' source', Reaches w ⟨none, options.mergeKeys⟩ (.file q) options' source' ∧
        Refused w options' source' e) :
    ∃ options' source', Reaches w options source options' source' ∧
      Refused w options' source' e := by
  rcases compose_eq_error h with ⟨q, ⟨v, hv, hasks⟩, hq⟩ | hfault
  · obtain ⟨name, hname, hpath⟩ := hasks.includes
    obtain ⟨options', source', hreaches, hfault⟩ := hincluded q hq
    exact ⟨options', source', .next ⟨text, htext, hv⟩ hname (hroot ▸ hpath) hreaches, hfault⟩
  · exact ⟨options, source, .self _ _, .text htext (atFault_alone hroot hmergeKeys hfault)⟩

/-- A file that is not loaded, but not for a cycle, reaches a load that is refused for its own sake.
Cycles are left out, because they are no fault of any single file. -/
theorem exists_refused_of_loadFile (hroot : l.root = options.rootFor (.file p))
    (hmergeKeys : l.mergeKeys = options.mergeKeys) (h : (l.loadFile w p).1 = .error e)
    (hcircular : ∀ path, e ≠ .circularInclude path) :
    ∃ options' source', Reaches w options (.file p) options' source' ∧
      Refused w options' source' e := by
  induction l, p using load_induction (w := w) generalizing options with
  | step l p ih =>
    obtain ⟨-, hout⟩ | ⟨fault, -, hread, hout⟩ | ⟨text, hopen, hread, hout⟩ := loadFile_cases w l p
    · rw [hout] at h
      cases h
      exact absurd rfl (hcircular p)
    · rw [hout] at h
      cases h
      exact ⟨options, .file p, .self _ _, .unreadable hread⟩
    · rw [hout] at h
      refine exists_refused_of_compose (l := l.enter (w.key p)) hroot hmergeKeys hread h ?_
      intro q hq
      exact ih text hopen hread q rfl hmergeKeys hq

end Loader

/-- A load that fails, but not for a cycle, reaches one that is refused for its own sake. What is
known of failures starts from here, by the cases of `Refused`. -/
theorem exists_refused_of_load_eq_error {e : Failure} (h : load w options source = .error e)
    (hcircular : ∀ path, e ≠ .circularInclude path) :
    ∃ options' source', Reaches w options source options' source' ∧
      Refused w options' source' e := by
  cases source with
  | file p => exact Loader.exists_refused_of_loadFile rfl rfl h hcircular
  | text content =>
    refine Loader.exists_refused_of_compose (l := .new options (.text content)) rfl rfl rfl h ?_
    intro q hq
    exact Loader.exists_refused_of_loadFile rfl rfl hq hcircular

/-- A file is found unreadable only if it cannot be read. The path that is named is the one that was
opened, as it is spelled. -/
theorem read_eq_error_of_load {path : Path} {fault : ReadFault}
    (h : load w options source = .error (.unreadable path fault)) : w.read path = .error fault := by
  obtain ⟨options', source', -, hrefused⟩ := exists_refused_of_load_eq_error h fun _ => nofun
  cases hrefused with
  | unreadable hread => exact hread
  | text _ hfault =>
    cases hfault with
    | node _ _ hnode => cases hnode.isOfHandler

/-- A text is found to have no value only if it has none. It is the text of the source or of a file
that is met. -/
theorem exists_text_of_load_eq_notYaml {path : Path}
    (h : load w options source = .error (.notYaml path)) :
    ∃ source' text, Meets w options source source' ∧ source'.name = path ∧
      source'.text? w = .ok text ∧ Document.value? text = none := by
  obtain ⟨options', source', hreaches, hrefused⟩ :=
    exists_refused_of_load_eq_error h fun _ => nofun
  cases hrefused with
  | @text _ text _ htext hfault =>
    cases hfault with
    | notYaml hvalue => exact ⟨source', text, hreaches.meets, rfl, htext, hvalue⟩
    | node _ _ hnode => cases hnode.isOfHandler

/-- A document is found unmergeable only if its tags are resolved, and the outcome is. So no failure
of merging hides an unknown tag in the same document. -/
theorem exists_resolvesTo_of_load_eq_unmergeable {path : Path} {fault : MergeFault}
    (h : load w options source = .error (.unmergeable path fault)) :
    ∃ options' source' u, Reaches w options source options' source' ∧ source'.name = path ∧
      source'.ResolvesTo w options' u ∧ u.merged = .error fault := by
  obtain ⟨options', source', hreaches, hrefused⟩ :=
    exists_refused_of_load_eq_error h fun _ => nofun
  cases hrefused with
  | @text _ text _ htext hfault =>
    cases hfault with
    | @unmergeable v u _ hvalue hresolved _ hmerged =>
      have hholds : source'.Holds w v := ⟨text, htext, hvalue⟩
      exact ⟨options', source', u, hreaches, rfl, ⟨v, hholds, hresolved⟩, hmerged⟩
    | node _ _ hnode => cases hnode.isOfHandler

/-- A load that succeeds has resolved the value of its source, with the files that it includes
loaded on their own. -/
theorem exists_resolvesTo_of_load_eq_ok {D : Value} (h : load w options source = .ok D) :
    ∃ u, source.ResolvesTo w options u := by
  have hcompose : ∀ {l : Loader} {text : String}, l.root = options.rootFor source →
      l.mergeKeys = options.mergeKeys → source.text? w = .ok text →
        l.compose w (l.included w) text source.name = .ok D →
          ∃ u, source.ResolvesTo w options u := by
    intro l text hroot hmergeKeys htext h
    obtain ⟨v, u, hv, hu, -⟩ := Loader.compose_eq_ok.mp h
    exact ⟨u, v, ⟨text, htext, hv⟩, (Loader.alone_extends hroot hmergeKeys).resolved hu⟩
  cases source with
  | file p =>
    obtain ⟨-, hout⟩ | ⟨fault, -, -, hout⟩ | ⟨text, -, hread, hout⟩ :=
      Loader.loadFile_cases w (Loader.new options (.file p)) p
    · cases hout.symm.trans h
    · cases hout.symm.trans h
    · exact hcompose (l := (Loader.new options (.file p)).enter (w.key p)) rfl rfl hread
        (hout.symm.trans h)
  | text content => exact hcompose (l := Loader.new options (.text content)) rfl rfl rfl h

/-- A load that succeeds reaches only loads that succeed. This is how properties of all files of a
successful load are proved, one file at a time. -/
theorem exists_ok_of_reaches (h : Reaches w options source options' source') {D : Value}
    (hload : load w options source = .ok D) : ∃ D', load w options' source' = .ok D' := by
  induction h generalizing D with
  | self => exact ⟨D, hload⟩
  | next hvalue hname hq _ ih =>
    obtain ⟨u, v, hvalue', hu⟩ := exists_resolvesTo_of_load_eq_ok hload
    have hname := hvalue.eq hvalue' ▸ hname
    obtain ⟨document, hdocument⟩ := Value.exists_load_of_resolved_eq_ok hu hname
    subst hq
    exact ih hdocument

end YamlWeave
