import YamlWeave.Proofs.Loader.Inclusion
import YamlWeave.Proofs.Loader.Kept
import YamlWeave.Proofs.Loader.Visits
import YamlWeave.Proofs.Value.MergeWalk

/-!
# Merge keys of documents

A text is merged after its tags are resolved, so it is the resolved value that decides whether the
text has a document and which one. Its keys are distinct, whatever the text and the included files
hold, and this is all that the laws of merging ask of a value (`loadText_merges_keys`).

Whether merge keys are resolved is an option of a load, and all loads inside it take it over. A
document is touched by it at one place only, after its tags are resolved: where no merge key is
found then, merging leaves the document as it is. So two loads that differ in this option come to
the same outcome as long as no document on the way has a merge key (`loadFile_withMergeKeys`), and
the load without merge keys never fails for one (`not_unmergeable_of_loadFile`).

The documents on the way are those that the load gets to (`Loader.Resolves`). A file that is named
behind the place where the load fails is none of them.
-/

set_option autoImplicit false

namespace YamlWeave

/-! ## What becomes of a text -/

namespace Loader

variable {w : World} {l : Loader} {text : String} {path : Path} {v u : Value}

/-- **Merge keys are resolved exactly.** A text whose tags resolve to a value has a document exactly
when every mapping that merging comes to in this value has no merge key, or one under which stands a
mapping or a sequence of mappings only. Otherwise it fails for its merge keys. The document is what
merging makes of the value: each mapping has its own entries without the merge key and, under every
other key, the entry of the first mapping taken in that has the key, and the values of all these are
merged in turn. Visiting nodes from a stack, and changing the tree in place, comes to the same
outcome. -/
theorem loadText_merges_keys (hmergeKeys : l.mergeKeys = true)
    (hvalue : Document.value? text = some v)
    (hresolved : v.resolved (l.resolver w (l.included w)) = .ok u) :
    ((∃ D, (l.loadText w text path).1 = .ok D) ↔
      ∀ entries : Entries, (Value.mapping entries).Met u → entries.isMergeable = true) ∧
    ((∃ entries : Entries, (Value.mapping entries).Met u ∧ entries.isMergeable = false) →
      ∃ fault, (l.loadText w text path).1 = .error (.unmergeable path fault)) ∧
    (∀ D, (l.loadText w text path).1 = .ok D → u.MergesTo D) ∧
    (∀ outcome, MergeWalk.Runs (.start u) outcome ↔ outcome = u.merged) ∧
    (l.loadText w text path).1 = u.merged.mapError (.unmergeable path) := by
  have hdistinct : u.Distinct :=
    Value.kept_distinct.resolved (fun _ _ hD => Value.kept_distinct.loadFile hD) hresolved
  have hload : (l.loadText w text path).1 = u.merged.mapError (.unmergeable path) := by
    show l.compose w (l.included w) text path = _
    rw [compose_of_value? hvalue, hresolved, hmergeKeys]
    rfl
  have hexists := Value.exists_merged_iff hdistinct
  simp only [hload, mapError_eq_ok]
  refine ⟨hexists, ?_, fun D => Value.mergesTo_of_merged hdistinct,
    fun _ => MergeWalk.runs_start_iff u, trivial⟩
  rintro ⟨entries, hmet, hstands⟩
  cases hmerged : u.merged with
  | error fault => exact ⟨fault, rfl⟩
  | ok D =>
    have hmergeable := hexists.mp ⟨D, hmerged⟩ entries hmet
    rw [hstands] at hmergeable
    cases hmergeable

/-- An own value wins over those taken in, the first of these over the second, and a value that is
taken in is merged itself. -/
theorem loadText_merges_two_mappings :
    ∃ v, Document.value? "{<<: [{k: {<<: {x: 1}}}, {k: 2, y: 3}], y: 4}" = some v ∧
      v.MergesTo
        (.mapping [(.string "y", .int 4), (.string "k", .mapping [(.string "x", .int 1)])]) := by
  have hvalue : Document.value? "{<<: [{k: {<<: {x: 1}}}, {k: 2, y: 3}], y: 4}" =
      some (.mapping [(.mergeKey, .sequence
          [.mapping [(.string "k", .mapping [(.mergeKey, .mapping [(.string "x", .int 1)])])],
            .mapping [(.string "k", .int 2), (.string "y", .int 3)]]),
        (.string "y", .int 4)]) := by
    decide +kernel
  have hmerges := @loadText_merges_keys (.single ⟨"/f"⟩ "") (.withRoot .here) _ ⟨"<string>"⟩ _ _
    rfl hvalue rfl
  exact ⟨_, hvalue, hmerges.2.2.1 _ (by decide +kernel)⟩

end Loader

open Value

namespace Loader

variable {w : World} {l l' : Loader} {p q path : Path} {text content : String} {source : Source}
  {fault : MergeFault} {mergeKeys : Bool}

/-! ## The documents on the way -/

/-- During a load a loader composes this text: the text of the source, or that of the file of a
call. -/
inductive Composes (w : World) (l : Loader) : Source → Loader → String → Prop
  | text (content : String) : Composes w l (.text content) l content
  | file {source : Source} {c : Call} {outer : List Call} {text : String}
      (h : Nested w l source (c :: outer)) (hreads : c.Reads w text) :
      Composes w l source (c.inside w) text

/-- During a load the tags of a document are resolved, and this is what comes out. -/
def Resolves (w : World) (l : Loader) (source : Source) (u : Value) : Prop :=
  ∃ l' text v, l.Composes w source l' text ∧ Document.value? text = some v ∧
    v.resolved (l'.resolver w (l'.included w)) = .ok u

/-- What the load of a file composes is composed by the load of a file that includes it. The
including file has to ask for it, since a name behind the first failure is not loaded. -/
theorem Composes.inside (hopen : l.isOpen (w.key p) = false) (hread : w.read p = .ok text)
    (hasks : (l.enter (w.key p)).Asks w ((l.enter (w.key p)).included w) text q)
    (h : ((l.enter (w.key p)).forInclude q).Composes w (.file q) l' content) :
    l.Composes w (.file p) l' content := by
  cases h with
  | file hnested hreads =>
    have hmakes : (Call.inside w ⟨l, p⟩).Makes w text ⟨(l.enter (w.key p)).forInclude q, q⟩ :=
      ⟨hasks, rfl⟩
    exact .file (hnested.append (c := ⟨l, p⟩) ⟨hopen, hread⟩ hmakes) hreads

/-- What the load of a file composes is composed by the load of a text that includes it. -/
theorem Composes.of_text (hasks : l.Asks w (l.included w) text q)
    (h : (l.forInclude q).Composes w (.file q) l' content) :
    l.Composes w (.text text) l' content := by
  cases h with
  | file hnested hreads =>
    exact .file (hnested.of_text (c := ⟨l.forInclude q, q⟩) ⟨hasks, rfl⟩) hreads

/-- No document on the way of a load has a merge key. -/
def FindsNoMergeKey (w : World) (l : Loader) (source : Source) : Prop :=
  ∀ u, l.Resolves w source u → u.MergeFree

/-- Where no merge key is found on the way of a load, none is found on the way of the loads inside.
This hands the hypothesis down the induction on files. -/
theorem FindsNoMergeKey.inside (h : l.FindsNoMergeKey w (.file p))
    (hopen : l.isOpen (w.key p) = false) (hread : w.read p = .ok text)
    (hasks : (l.enter (w.key p)).Asks w ((l.enter (w.key p)).included w) text q) :
    ((l.enter (w.key p)).forInclude q).FindsNoMergeKey w (.file q) := by
  rintro u ⟨l', content, v, hcomposes, hv, hu⟩
  exact h u ⟨l', content, v, hcomposes.inside hopen hread hasks, hv, hu⟩

/-- Where no merge key is found on the way of the load of a text, none is found on the way of the
loads of the files that it includes. -/
theorem FindsNoMergeKey.of_text (h : l.FindsNoMergeKey w (.text text))
    (hasks : l.Asks w (l.included w) text q) :
    (l.forInclude q).FindsNoMergeKey w (.file q) := by
  rintro u ⟨l', content, v, hcomposes, hv, hu⟩
  exact h u ⟨l', content, v, hcomposes.of_text hasks, hv, hu⟩

/-! ## The two loads -/

/-- The loader that treats merge keys this way, and is the same otherwise. -/
def withMergeKeys (mergeKeys : Bool) (l : Loader) : Loader :=
  { l with mergeKeys }

/-- A text has one outcome with and without merge keys, when the files that it asks for have, and
its tags are resolved to a value without merge keys. A text whose tags are not resolved fails before
merge keys matter. -/
theorem compose_withMergeKeys {load load' : Path → Except Failure Value}
    (hfree : ∀ v u, Document.value? text = some v → v.resolved (l.resolver w load) = .ok u →
      u.MergeFree)
    (hload : ∀ q, l.Asks w load text q → load' q = load q) :
    (l.withMergeKeys mergeKeys).compose w load' text path = l.compose w load text path := by
  have hfiles : (l.withMergeKeys mergeKeys).compose w load' text path =
      (l.withMergeKeys mergeKeys).compose w load text path :=
    compose_congr rfl rfl (fun _ _ _ _ => rfl) hload
  rw [hfiles]
  cases hv : Document.value? text with
  | none => rw [compose_of_not_yaml hv, compose_of_not_yaml hv]
  | some v =>
    have hresolver : (l.withMergeKeys mergeKeys).resolver w load = l.resolver w load := rfl
    rw [compose_of_value? hv, compose_of_value? hv, hresolver]
    cases hu : v.resolved (l.resolver w load) with
    | error e => rfl
    | ok u =>
      -- Merging leaves the value alone, so both options come to it.
      have hmerged : ∀ option : Bool,
          (if option then u.merged.mapError (Failure.unmergeable path) else .ok u) = .ok u := by
        intro option
        rw [merged_of_mergeFree (hfree v u hv hu)]
        cases option <;> rfl
      exact (hmerged mergeKeys).trans (hmerged l.mergeKeys).symm

/-- A file comes to one outcome with and without merge keys, when no document on the way of its load
has one. The induction changes the option in all loads inside at once. -/
theorem loadFile_withMergeKeys (h : l.FindsNoMergeKey w (.file p)) :
    ((l.withMergeKeys mergeKeys).loadFile w p).1 = (l.loadFile w p).1 := by
  induction l, p using load_induction (w := w) with
  | step l p ih =>
    obtain ⟨hopen, hout⟩ | ⟨fault, hopen, hread, hout⟩ | ⟨text, hopen, hread, hout⟩ :=
      loadFile_cases w l p
    · rw [hout, loadFile_of_isOpen (l := l.withMergeKeys mergeKeys) hopen]
    · rw [hout, loadFile_of_unreadable (l := l.withMergeKeys mergeKeys) hopen hread]
    · rw [hout, loadFile_of_read (l := l.withMergeKeys mergeKeys) hopen hread]
      refine compose_withMergeKeys (l := l.enter (w.key p)) (fun v u hv hu => ?_) fun q hq => ?_
      · exact h u ⟨_, text, v, .file (.file p) ⟨hopen, hread⟩, hv, hu⟩
      · exact ih text hopen hread q (h.inside hopen hread hq)

/-- A load comes to one outcome with and without merge keys, when no document on its way has one.
The way is that of one of the two loads, and it turns out to be that of both. -/
theorem load_withMergeKeys (mergeKeys : Bool) (h : l.FindsNoMergeKey w source) :
    ((l.withMergeKeys mergeKeys).load w source).1 = (l.load w source).1 := by
  cases source with
  | file p => exact loadFile_withMergeKeys h
  | text content =>
    refine compose_withMergeKeys (fun v u hv hu => ?_) fun q hq => ?_
    · exact h u ⟨l, content, v, .text content, hv, hu⟩
    · exact loadFile_withMergeKeys (h.of_text hq)

/-! ## Loads without merge keys -/

/-- A text is not at fault for merge keys that are left alone, so such a failure would be that of a
file that it asks for. That file takes the option over, so it would need another one in turn. -/
theorem exists_asks_of_compose_unmergeable {load : Path → Except Failure Value}
    (hmergeKeys : l.mergeKeys = false) {file : Path}
    (h : l.compose w load text path = .error (.unmergeable file fault)) :
    ∃ q, load q = .error (.unmergeable file fault) := by
  rcases compose_eq_error h with ⟨q, -, hq⟩ | hown
  · exact ⟨q, hq⟩
  · cases hown with
    | node _ _ hfault => cases hfault.isOfHandler
    | unmergeable _ _ hmerges _ =>
      rw [hmergeKeys] at hmerges
      cases hmerges

/-- A file does not fail for merge keys that are left alone, whatever merge keys it and the files
inside hold. -/
theorem not_unmergeable_of_loadFile (hmergeKeys : l.mergeKeys = false) :
    (l.loadFile w p).1 ≠ .error (.unmergeable path fault) := by
  induction l, p using load_induction (w := w) with
  | step l p ih =>
    intro h
    obtain ⟨-, hout⟩ | ⟨_, -, -, hout⟩ | ⟨text, hopen, hread, hout⟩ := loadFile_cases w l p
    · cases hout.symm.trans h
    · cases hout.symm.trans h
    · obtain ⟨q, hq⟩ := exists_asks_of_compose_unmergeable (l := l.enter (w.key p)) hmergeKeys
        (hout.symm.trans h)
      exact ih text hopen hread q hmergeKeys hq

theorem not_unmergeable_of_load (hmergeKeys : l.mergeKeys = false) :
    (l.load w source).1 ≠ .error (.unmergeable path fault) := by
  cases source with
  | file p => exact not_unmergeable_of_loadFile hmergeKeys
  | text content =>
    intro h
    obtain ⟨q, hq⟩ := exists_asks_of_compose_unmergeable hmergeKeys h
    exact not_unmergeable_of_loadFile (l := l.forInclude q) hmergeKeys hq

/-- All calls of a load treat merge keys alike. There is no way to change the option on the way to
an included file. -/
theorem mergeKeys_of_nested {c : Call} {outer : List Call} (h : Nested w l source (c :: outer)) :
    c.loader.mergeKeys = l.mergeKeys := by
  refine nested_induction (P := fun c _ => c.loader.mergeKeys = l.mergeKeys)
    (fun _ _ => rfl) ?_ ?_ h
  · intro content c _ hmakes
    rw [hmakes.2]
    rfl
  · intro c outer content inner ih _ hmakes
    rw [hmakes.2, ← ih]
    rfl

end Loader

/-- **Merge keys count only where they are found.** With merge keys left alone, neither a load nor
any call in it fails for merge keys. When, of the documents that a load gets to, none has after its
tags are resolved a mapping with a merge key that is reached through values and elements, the loads
that resolve merge keys and that leave them alone have the same outcome, value or failure. It makes
no difference which of the two loads it is whose documents are looked at. -/
theorem merge_keys_count_where_found (w : World) (root : Option Path) (source : Source) :
    (∀ path fault, load w ⟨root, false⟩ source ≠ .error (.unmergeable path fault)) ∧
    (∀ c outer, Loader.Nested w (.new ⟨root, false⟩ source) source (c :: outer) →
      ∀ path fault, (c.loader.loadFile w c.path).1 ≠ .error (.unmergeable path fault)) ∧
    ∀ mergeKeys, (Loader.new ⟨root, mergeKeys⟩ source).FindsNoMergeKey w source →
      load w ⟨root, true⟩ source = load w ⟨root, false⟩ source := by
  refine ⟨fun path fault => ?_, fun c outer hnested path fault => ?_, fun mergeKeys h => ?_⟩
  · exact Loader.not_unmergeable_of_load rfl
  · exact Loader.not_unmergeable_of_loadFile (Loader.mergeKeys_of_nested hnested)
  · have hsame : ∀ option, load w ⟨root, option⟩ source = load w ⟨root, mergeKeys⟩ source :=
      fun option => Loader.load_withMergeKeys option h
    rw [hsame true, hsame false]

/-- A merge key that stands inside a key is not one that merging gets to, and turning the option on
makes no difference. Here it stands over a scalar, which would fail anywhere else. -/
theorem load_with_merge_key_in_key :
    (Loader.new ⟨none, true⟩ (.text "k: !include /f")).FindsNoMergeKey
        (.single ⟨"/f"⟩ "{{<<: 1}: [{x: 1}]}") (.text "k: !include /f") ∧
      load (.single ⟨"/f"⟩ "{{<<: 1}: [{x: 1}]}") ⟨none, true⟩ (.text "k: !include /f") =
        load (.single ⟨"/f"⟩ "{{<<: 1}: [{x: 1}]}") ⟨none, false⟩ (.text "k: !include /f") := by
  let w : World := .single ⟨"/f"⟩ "{{<<: 1}: [{x: 1}]}"
  let l : Loader := .new ⟨none, true⟩ (.text "k: !include /f")
  let v : Value := .mapping
    [(.mapping [(.mergeKey, .int 1)], .sequence [.mapping [(.string "x", .int 1)]])]
  let node : Value := .tagged ⟨"include"⟩ (.string "/f")
  have htext : Document.value? "k: !include /f" = some (.mapping [(.string "k", node)]) := by
    decide +kernel
  have hresolved : (Value.mapping [(.string "k", node)]).resolved (l.resolver w (l.included w)) =
      .ok (.mapping [(.string "k", v)]) := by
    decide +kernel
  have hfile : Document.value? "{{<<: 1}: [{x: 1}]}" = some v := by decide +kernel
  have hnone : l.FindsNoMergeKey w (.text "k: !include /f") := by
    rintro u ⟨l', text, found, hcomposes, hfound, hu⟩
    rw [← merged_eq_self_iff]
    cases hcomposes with
    | text =>
      cases htext.symm.trans hfound
      cases hresolved.symm.trans hu
      decide +kernel
    | @file _ c _ _ _ hreads =>
      have hread : (if c.path = ⟨"/f"⟩ then .ok "{{<<: 1}: [{x: 1}]}" else
          .error ReadFault.notFound) = Except.ok text := hreads.2
      split at hread
      · cases hread
        cases hfile.symm.trans hfound
        cases hu
        decide +kernel
      · cases hread
  exact ⟨hnone, (merge_keys_count_where_found w none _).2.2 true hnone⟩

end YamlWeave
