import YamlWeave.Proofs.Loader.Reached
import YamlWeave.Proofs.Loader.Termination

/-!
# What a load looks up

All that a load asks the world about files is the canonical path of a path, and the text behind it.
The paths that it asks about are those of its calls (`Loader.Visits`). Two worlds that agree on
these paths, and on the variables that the documents found there name, cannot be told apart by the
load (`load_of_agrees`): whatever else differs, the outcome is the same, value or failure.
-/

set_option autoImplicit false

namespace YamlWeave.Loader

variable {w w' : World} {l : Loader} {p q x : Path} {text : String} {source : Source}

/-- A load looks a path up: one of its calls, at whatever depth, is about this path. -/
def Visits (w : World) (l : Loader) (source : Source) (p : Path) : Prop :=
  ∃ c outer, Nested w l source (c :: outer) ∧ c.path = p

/-- The load of a file looks the file up, even if it is then refused for a cycle. -/
theorem visits_self : l.Visits w (.file p) p :=
  ⟨⟨l, p⟩, [], .file p, rfl⟩

/-- The calls of a file are calls of the file that includes it, with one more call around them.
Calls are listed from the innermost to the outermost, so this one goes to the end. -/
theorem Nested.append {c inner : Call} {calls : List Call} (hreads : c.Reads w text)
    (hmakes : (c.inside w).Makes w text inner)
    (h : Nested w inner.loader (.file inner.path) calls) :
    Nested w c.loader (.file c.path) (calls ++ [c]) := by
  generalize hsource : Source.file inner.path = source at h
  induction h with
  | file p =>
    cases hsource
    exact .inside (.file c.path) hreads hmakes
  | text _ => cases hsource
  | inside _ hreads' hmakes' ih => exact .inside (ih hsource) hreads' hmakes'

/-- The calls of a file are calls of the text that includes it. The text is no call itself. -/
theorem Nested.of_text {content : String} {c : Call} {calls : List Call}
    (hmakes : l.Makes w content c) (h : Nested w c.loader (.file c.path) calls) :
    Nested w l (.text content) calls := by
  generalize hsource : Source.file c.path = source at h
  induction h with
  | file p =>
    cases hsource
    exact .text hmakes
  | text _ => cases hsource
  | inside _ hreads' hmakes' ih => exact .inside (ih hsource) hreads' hmakes'

/-- What the load of a file looks up is looked up by the load of a file that includes it. -/
theorem visits_of_asks (hopen : l.isOpen (w.key p) = false) (hread : w.read p = .ok text)
    (hasks : (l.enter (w.key p)).Asks w ((l.enter (w.key p)).included w) text q)
    (h : ((l.enter (w.key p)).forInclude q).Visits w (.file q) x) : l.Visits w (.file p) x := by
  obtain ⟨c, outer, hnested, rfl⟩ := h
  have hmakes : (Call.inside w ⟨l, p⟩).Makes w text ⟨(l.enter (w.key p)).forInclude q, q⟩ :=
    ⟨hasks, rfl⟩
  have hcalls : Nested w l (.file p) (c :: (outer ++ [⟨l, p⟩])) :=
    hnested.append (c := ⟨l, p⟩) ⟨hopen, hread⟩ hmakes
  exact ⟨c, _, hcalls, rfl⟩

/-- What the load of a file looks up is looked up by the load of a text that includes it. With
`visits_of_asks` this is how agreement of worlds is handed down to included files. -/
theorem visits_of_text_asks {content : String} (hasks : l.Asks w (l.included w) content q)
    (h : (l.forInclude q).Visits w (.file q) x) : l.Visits w (.text content) x := by
  obtain ⟨c, outer, hnested, rfl⟩ := h
  exact ⟨c, outer, hnested.of_text (c := ⟨l.forInclude q, q⟩) ⟨hasks, rfl⟩, rfl⟩

/-- Another world is the same wherever a load looks. -/
structure Agrees (w w' : World) (l : Loader) (source : Source) : Prop where
  canonical? : ∀ p, l.Visits w source p → w'.canonical? p = w.canonical? p
  read : ∀ p, l.Visits w source p → w'.read p = w.read p
  /-- Variables that the source names are the same. -/
  own : ∀ v name, source.Holds w v → v.Consults name → w'.valueOf? name = w.valueOf? name
  /-- Variables that the files name are the same. -/
  included : ∀ p v name, l.Visits w source p → (Source.file p).Holds w v → v.Consults name →
    w'.valueOf? name = w.valueOf? name

/-- Worlds that agree wherever the load of a file looks agree wherever the loads inside look. -/
theorem Agrees.inside (h : Agrees w w' l (.file p)) (hopen : l.isOpen (w.key p) = false)
    (hread : w.read p = .ok text)
    (hasks : (l.enter (w.key p)).Asks w ((l.enter (w.key p)).included w) text q) :
    Agrees w w' ((l.enter (w.key p)).forInclude q) (.file q) where
  canonical? x hx := h.canonical? x (visits_of_asks hopen hread hasks hx)
  read x hx := h.read x (visits_of_asks hopen hread hasks hx)
  own v name := h.included q v name (visits_of_asks hopen hread hasks visits_self)
  included x v name hx := h.included x v name (visits_of_asks hopen hread hasks hx)

theorem Agrees.of_text {content : String} (h : Agrees w w' l (.text content))
    (hasks : l.Asks w (l.included w) content q) : Agrees w w' (l.forInclude q) (.file q) where
  canonical? x hx := h.canonical? x (visits_of_text_asks hasks hx)
  read x hx := h.read x (visits_of_text_asks hasks hx)
  own v name := h.included q v name (visits_of_text_asks hasks visits_self)
  included x v name hx := h.included x v name (visits_of_text_asks hasks hx)

/-- A file has the same outcome in two worlds that are the same wherever its load looks. Each world
is asked three things of a path: how it is recognised, what it holds and, once it is read, which
values its variables have. -/
theorem loadFile_of_agrees (h : Agrees w w' l (.file p)) :
    (l.loadFile w' p).1 = (l.loadFile w p).1 := by
  induction l, p using load_induction (w := w) with
  | step l p ih =>
    have hkey : w'.key p = w.key p := by
      rw [World.key, World.key, h.canonical? p visits_self]
    have hsame := h.read p visits_self
    obtain ⟨hopen, hout⟩ | ⟨fault, hopen, hread, hout⟩ | ⟨text, hopen, hread, hout⟩ :=
      loadFile_cases w l p
    · rw [hout, loadFile_of_isOpen (hkey ▸ hopen)]
    · rw [hout, loadFile_of_unreadable (hkey ▸ hopen) (hsame.trans hread)]
    · rw [hout, loadFile_of_read (hkey ▸ hopen) (hsame.trans hread), hkey]
      refine compose_congr rfl rfl (fun v name hv => ?_) fun q hq => ?_
      · exact h.own v name ⟨text, hread, hv⟩
      · exact ih text hopen hread q (h.inside hopen hread hq)

/-- A load has the same outcome in two worlds that are the same wherever it looks. Failures are the
same too, with the paths that they name. -/
theorem load_of_agrees (h : Agrees w w' l source) : (l.load w' source).1 = (l.load w source).1 := by
  cases source with
  | file p => exact loadFile_of_agrees h
  | text content =>
    refine compose_congr rfl rfl (fun v name hv => ?_) fun q hq => ?_
    · exact h.own v name ⟨content, rfl, hv⟩
    · exact loadFile_of_agrees (h.of_text hq)

end YamlWeave.Loader
