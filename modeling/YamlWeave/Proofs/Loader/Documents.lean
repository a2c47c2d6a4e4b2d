import YamlWeave.Loader
import YamlWeave.Proofs.Resolve.Asked

/-!
# What a document asks for

The laws of `Proofs.Resolve.Asked`, for whole documents: the outcome of a text hangs on the
documents of the paths that the text asks for (`compose_congr`), fails as one of them fails
(`compose_eq_error_of_asks`), and otherwise only where the text is at fault itself
(`compose_eq_error`).

A file goes one of three ways (`loadFile_cases`). A law of the files that are loaded inside a load
carries over to the load itself (`load_induction`), and that is how all laws of nested loads are
proved.
-/

set_option autoImplicit false

namespace YamlWeave.Loader

variable {w : World} {l l' : Loader}

/-! ## Texts -/

/-- Composing a text loads a path. `load` gives the documents of included files. -/
def Asks (w : World) (l : Loader) (load : Path → Except Failure Value) (text : String) (q : Path) :
    Prop :=
  ∃ v, Document.value? text = some v ∧ v.Asks (l.resolver w load) q

variable {load load' : Path → Except Failure Value} {text : String} {path q : Path}

/-- A text with a value is that value with its tags resolved, and then its merge keys. The path of
the text takes part only where merging is refused. -/
theorem compose_of_value? {v : Value} (h : Document.value? text = some v) :
    l.compose w load text path = (v.resolved (l.resolver w load) >>= fun u =>
      if l.mergeKeys then u.merged.mapError (.unmergeable path) else .ok u) := by
  simp only [compose, h]
  rfl

theorem compose_of_not_yaml (h : Document.value? text = none) :
    l.compose w load text path = .error (.notYaml path) := by
  simp only [compose, h]
  rfl

/-- A text has a document when its value is resolved and, if need be, merged. The document does not
depend on the path of the text. -/
theorem compose_eq_ok {D : Value} : l.compose w load text path = .ok D ↔
    ∃ v u, Document.value? text = some v ∧ v.resolved (l.resolver w load) = .ok u ∧
      if l.mergeKeys then u.merged = .ok D else u = D := by
  cases hv : Document.value? text with
  | none => simp [compose_of_not_yaml hv]
  | some v =>
    rw [compose_of_value? hv, bind_eq_ok]
    cases l.mergeKeys <;> simp [mapError_eq_ok]

/-- The outcome is the same for all loaders that start from one root, treat merge keys alike and
agree on the paths asked for, in worlds that agree on the variables of the text. Nothing else of a
loader or a world is looked at. -/
theorem compose_congr {w' : World} (hroot : l'.root = l.root) (hmerge : l'.mergeKeys = l.mergeKeys)
    (hvalue : ∀ v name, Document.value? text = some v → v.Consults name →
      w'.valueOf? name = w.valueOf? name)
    (h : ∀ q, l.Asks w load text q → load' q = load q) :
    l'.compose w' load' text path = l.compose w load text path := by
  cases hv : Document.value? text with
  | none => rw [compose_of_not_yaml hv, compose_of_not_yaml hv]
  | some v =>
    have hresolved : v.resolved (l'.resolver w' load') = v.resolved (l.resolver w load) := by
      apply Value.resolved_congr
      · intro name _
        show l'.root / _ = l.root / _
        rw [hroot]
      · intro name hname
        exact hvalue v name hv hname
      · intro q hq
        exact h q ⟨v, hv, hq⟩
    rw [compose_of_value? hv, compose_of_value? hv, hresolved, hmerge]

/-- A document comes out of a loader with another root as well, when this one loads, of the files
that it is asked for, those that the first one has under their names to the same documents. Only
success is carried over, because failures name paths. -/
theorem compose_of_named {path' : Path} {D : Value} (hmerge : l'.mergeKeys = l.mergeKeys)
    (hload : ∀ name, l'.Asks w load' text (l'.root / ⟨name⟩) →
      ∀ document, load (l.root / ⟨name⟩) = .ok document → load' (l'.root / ⟨name⟩) = .ok document)
    (h : l.compose w load text path = .ok D) : l'.compose w load' text path' = .ok D := by
  obtain ⟨v, u, hv, hu, hmerged⟩ := compose_eq_ok.mp h
  refine compose_eq_ok.mpr ⟨v, u, hv, ?_, hmerge ▸ hmerged⟩
  refine Value.resolved_of_named hu (fun _ _ => rfl) ?_
  intro name _ hasks document hdocument
  exact hload name ⟨v, hv, hasks⟩ document hdocument

/-- The failure of a path asked for is the failure of the document. By the order of resolving there
is one such path at most. -/
theorem compose_eq_error_of_asks (hasks : l.Asks w load text q) {e : Failure}
    (hload : load q = .error e) : l.compose w load text path = .error e := by
  obtain ⟨v, hv, hq⟩ := hasks
  rw [compose_of_value? hv, Value.resolved_eq_error_of_asks hq hload]
  rfl

/-- A text is refused for what it holds itself: it has no value, a node in it is at fault, or the
value that its tags are resolved to cannot be merged. -/
inductive AtFault (w : World) (l : Loader) (load : Path → Except Failure Value) (text : String)
    (path : Path) : Failure → Prop
  | notYaml (hvalue : Document.value? text = none) : AtFault w l load text path (.notYaml path)
  | node {v content : Value} {tag : Tag} {e : Failure} (hvalue : Document.value? text = some v)
      (hnode : (Value.tagged tag content).Within v)
      (hfault : (l.resolver w load).AtFault tag content e) : AtFault w l load text path e
  | unmergeable {v u : Value} {fault : MergeFault} (hvalue : Document.value? text = some v)
      (hresolved : v.resolved (l.resolver w load) = .ok u) (hmergeKeys : l.mergeKeys = true)
      (hmerged : u.merged = .error fault) : AtFault w l load text path (.unmergeable path fault)

/-- Every failure of a document is that of a path asked for, or the text itself is at fault. With
this a failure can be traced down to the file that it is about. -/
theorem compose_eq_error {e : Failure} (h : l.compose w load text path = .error e) :
    (∃ q, l.Asks w load text q ∧ load q = .error e) ∨ l.AtFault w load text path e := by
  cases hv : Document.value? text with
  | none =>
    rw [compose_of_not_yaml hv] at h
    cases h
    exact .inr (.notYaml hv)
  | some v =>
    rw [compose_of_value? hv] at h
    rcases bind_eq_error.mp h with hresolved | ⟨u, hresolved, h⟩
    · rcases Value.resolved_eq_error hresolved with ⟨q, hq, hload⟩ | ⟨tag, content, hnode, hfault⟩
      · exact .inl ⟨q, ⟨v, hv, hq⟩, hload⟩
      · exact .inr (.node hv hnode hfault)
    · split at h
      · obtain ⟨fault, hmerged, rfl⟩ := mapError_eq_error.mp h
        exact .inr (.unmergeable hv hresolved ‹_› hmerged)
      · cases h

/-- Only a path asked for makes a document circular. No text does so itself, whatever it holds. -/
theorem exists_asks_of_compose_circular {p : Path}
    (h : l.compose w load text path = .error (.circularInclude p)) :
    ∃ q, l.Asks w load text q ∧ load q = .error (.circularInclude p) := by
  rcases compose_eq_error h with hq | hown
  · exact hq
  · cases hown with
    | node _ _ hfault => cases hfault.isOfHandler

/-! ## Files -/

/-- The document of a file that is included. -/
def included (w : World) (l : Loader) (q : Path) : Except Failure Value :=
  ((l.forInclude q).loadFile w q).1

variable {p : Path}

/-- A file that is open already is not read again: the load is cut off. -/
theorem loadFile_of_isOpen (hopen : l.isOpen (w.key p) = true) :
    l.loadFile w p = (.error (.circularInclude p), l) := by
  rw [loadFile_eq, if_pos hopen]

/-- A file that cannot be read is reported as it is, with the path that it was asked for by. -/
theorem loadFile_of_unreadable (hopen : l.isOpen (w.key p) = false) {fault : ReadFault}
    (hread : w.read p = .error fault) : l.loadFile w p = (.error (.unreadable p fault), l) := by
  rw [loadFile_eq, if_neg (Bool.eq_false_iff.mp hopen), hread]

/-- A file that can be read, and is not open, is composed in the middle of itself. Afterwards the
loader is the one from before. -/
theorem loadFile_of_read (hopen : l.isOpen (w.key p) = false) (hread : w.read p = .ok text) :
    l.loadFile w p =
      ((l.enter (w.key p)).compose w ((l.enter (w.key p)).included w) text p, l) := by
  rw [loadFile_eq, if_neg (Bool.eq_false_iff.mp hopen), hread]
  rfl

/-- The three ways that a file can go. The check for cycles comes first, so a file that is open is
not even opened. -/
theorem loadFile_cases (w : World) (l : Loader) (p : Path) :
    (l.isOpen (w.key p) = true ∧ (l.loadFile w p).1 = .error (.circularInclude p)) ∨
    (∃ fault, l.isOpen (w.key p) = false ∧ w.read p = .error fault ∧
      (l.loadFile w p).1 = .error (.unreadable p fault)) ∨
    (∃ text, l.isOpen (w.key p) = false ∧ w.read p = .ok text ∧
      (l.loadFile w p).1 =
        (l.enter (w.key p)).compose w ((l.enter (w.key p)).included w) text p) := by
  cases hopen : l.isOpen (w.key p) with
  | true => exact .inl ⟨rfl, by rw [loadFile_of_isOpen hopen]⟩
  | false =>
    cases hread : w.read p with
    | error fault =>
      exact .inr (.inl ⟨fault, rfl, rfl, by rw [loadFile_of_unreadable hopen hread]⟩)
    | ok text => exact .inr (.inr ⟨text, rfl, rfl, by rw [loadFile_of_read hopen hread]⟩)

/-- A file that has a document can be read. -/
theorem exists_read_of_loadFile {D : Value} (h : (l.loadFile w p).1 = .ok D) :
    ∃ text, w.read p = .ok text := by
  obtain ⟨-, hout⟩ | ⟨_, -, -, hout⟩ | ⟨text, -, hread, -⟩ := loadFile_cases w l p
  · cases hout.symm.trans h
  · cases hout.symm.trans h
  · exact ⟨text, hread⟩

/-- A text is composed with the documents of the files that it includes. No file is open around it,
since a text is none. -/
theorem load_text (w : World) (options : Options) (content : String) :
    YamlWeave.load w options (.text content) =
      (Loader.new options (.text content)).compose w
        ((Loader.new options (.text content)).included w) content ⟨"<string>"⟩ :=
  rfl

/-- What holds of a load as soon as it holds of the loads inside it holds of every load. The step
gets these loads for every file that may be included, not only for those that the text names. -/
theorem load_induction {P : Loader → Path → Prop}
    (step : ∀ l p, (∀ text, l.isOpen (w.key p) = false → w.read p = .ok text →
      ∀ q, P ((l.enter (w.key p)).forInclude q) q) → P l p)
    (l : Loader) (p : Path) : P l p :=
  step l p fun _ _ _ q => load_induction step ((l.enter (w.key p)).forInclude q) q
termination_by l.remaining w
decreasing_by exact remaining_enter_lt ‹_› (Bool.eq_false_iff.mp ‹_›) q

end YamlWeave.Loader
