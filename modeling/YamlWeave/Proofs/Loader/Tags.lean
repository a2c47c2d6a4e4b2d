import YamlWeave.Proofs.Loader.Kept
import YamlWeave.Proofs.Loader.Reached
import YamlWeave.Proofs.Value.Document
import YamlWeave.Proofs.Value.TagFree

/-!
# What becomes of tags

A load leaves no tag behind: whatever its texts hold, the document has none at any depth, and
neither has any included document (`load_leaves_no_tag`). That an included document which is neither
a sequence nor a mapping is a scalar, and that merge keys are never refused for a tag, comes down to
this.

A load passes over no tag either. A tag that has no handler is never dropped unseen, wherever it
stands in a document that the load has to do with: the load fails (`load_knows_tags`). Operands that
are not walked are no exception, since a node that could hide a tag is not accepted there. The only
thing to hide one from a node for a variable would be null with two tags, which no text holds.
-/

set_option autoImplicit false

namespace YamlWeave

/-- A tag has a handler, or says only that its node has no tag. -/
def Tag.isKnown (tag : Tag) : Bool :=
  tag.isNonSpecific || (Handler.ofTag? tag.text).isSome

namespace Value

/-- Every tag inside a value is known, at any depth. -/
def TagsKnown (v : Value) : Prop :=
  ∀ tag content, (tagged tag content).Within v → tag.isKnown = true

/-- A value without tags that counts as a scalar is one. A value with a tag counts as a scalar too,
as it is neither a sequence nor a mapping. -/
theorem TagFree.isScalar {v : Value} (h : v.TagFree) (hkind : v.kind = .scalar) :
    v.isScalar = true := by
  cases v with
  | tagged tag content => exact absurd h (not_tagFree_tagged tag content)
  | sequence items => cases hkind
  | mapping entries => cases hkind
  | _ => rfl

variable {r : Resolver}

/-- A node that is resolved has a known tag: any other tag is refused before its content is looked
at. -/
theorem isKnown_of_resolved {tag : Tag} {content u : Value}
    (h : resolved r (.tagged tag content) = .ok u) : tag.isKnown = true := by
  cases hspecific : tag.isNonSpecific with
  | true => rw [Tag.isKnown, hspecific, Bool.true_or]
  | false =>
    cases hhandler : Handler.ofTag? tag.text with
    | some handler => rw [Tag.isKnown, hhandler, Option.isSome_some, Bool.or_true]
    | none =>
      have hdemand : r.demand tag content = .nothing (.error (.unknownTag tag.text)) := by
        simp [Resolver.demand, hspecific, hhandler]
      rw [resolved_tagged, hdemand] at h
      cases h

/-- A value that is resolved has known tags only, also where it is not walked. It must not have tags
directly on tags, as texts never do (`Document.taggedOnce_of_value?`). -/
theorem tagsKnown_of_resolved {v u : Value} (h : resolved r v = .ok u) (honce : v.TaggedOnce) :
    v.TagsKnown := by
  intro tag content hwithin
  obtain ⟨y, hy⟩ := exists_resolved_of_within h honce hwithin
  exact isKnown_of_resolved hy

end Value

variable {w : World} {options : Options} {source : Source}

/-! ## No tag is left -/

/-- A merge key is refused in a value of which the tags are resolved, so never for a tag. The
messages about tags below merge keys are there for values that no load comes to. -/
theorem aboutTag_of_load_eq_unmergeable {path : Path} {fault : MergeFault}
    (h : load w options source = .error (.unmergeable path fault)) : fault.aboutTag = false := by
  obtain ⟨options', source', u, -, -, ⟨v, -, hresolved⟩, hmerged⟩ :=
    exists_resolvesTo_of_load_eq_unmergeable h
  apply Value.aboutTag_of_merged_eq_error _ hmerged
  apply Value.kept_tagFree.resolved _ hresolved
  intro q document hload
  exact Value.kept_tagFree.load hload

/-- No text has a tag directly on a tag, so none is found there. The failure exists for values that
are put together by other means. -/
theorem load_ne_malformedTag {tag : String} :
    load w options source ≠ .error (.malformedTag tag) := by
  intro h
  obtain ⟨options', source', -, hrefused⟩ := exists_refused_of_load_eq_error h fun _ => nofun
  cases hrefused with
  | text _ hfault =>
    cases hfault with
    | @node _ content tag _ hvalue hnode hfault =>
      cases hfault with
      | malformedTag _ htagged =>
        have honce := Document.taggedOnce_of_value? hvalue tag content hnode
        rw [htagged] at honce
        cases honce
      | documents _ _ _ hjoined => cases Include.isOfDocuments_of_joined hjoined

/-- **A loaded document is fully resolved.** No tag stands inside it, at any depth and in no key,
whatever it includes. So an included document that counts as a scalar is one, no merge key is
refused for a tag, and no handler of a function meets a second tag. -/
theorem load_leaves_no_tag (w : World) (options : Options) (source : Source) :
    (∀ D, load w options source = .ok D → D.TagFree) ∧
    (∀ l q D, Loader.included w l q = .ok D → D.kind = .scalar → D.isScalar = true) ∧
    (∀ path fault, load w options source = .error (.unmergeable path fault) →
      fault.aboutTag = false) ∧
    ∀ tag, load w options source ≠ .error (.malformedTag tag) := by
  refine ⟨fun D h => Value.kept_tagFree.load h, fun l q D h hkind => ?_,
    fun path fault => aboutTag_of_load_eq_unmergeable, fun tag => load_ne_malformedTag⟩
  have hfree : D.TagFree := Value.kept_tagFree.loadFile h
  exact hfree.isScalar hkind

/-! ## No tag is passed over -/

/-- A load that succeeds meets sources with known tags only. The source is one of them, and each
included file is another. -/
theorem exists_tagsKnown_of_meets {D : Value} (h : load w options source = .ok D)
    {source' : Source} (hmeets : Meets w options source source') :
    ∃ v, source'.Holds w v ∧ v.TagsKnown := by
  obtain ⟨options', hreaches⟩ := hmeets.reaches
  obtain ⟨D', hD'⟩ := exists_ok_of_reaches hreaches h
  obtain ⟨u, v, ⟨text, htext, hvalue⟩, hu⟩ := exists_resolvesTo_of_load_eq_ok hD'
  exact ⟨v, ⟨text, htext, hvalue⟩,
    Value.tagsKnown_of_resolved hu (Document.taggedOnce_of_value? hvalue)⟩

/-- **No unknown tag slips through.** When a load succeeds, its source and all files at the ends of
its chains hold values in which every tag is known, at any depth, in keys and in operands too. So a
single tag that is not known, anywhere in one of these values, makes the load fail. -/
theorem load_knows_tags (w : World) (options : Options) (source : Source) :
    (∀ D, load w options source = .ok D → ∀ source', Meets w options source source' →
      ∃ v, source'.Holds w v ∧ v.TagsKnown) ∧
    ∀ source' v tag content, Meets w options source source' → source'.Holds w v →
      (Value.tagged tag content).Within v → tag.isKnown = false →
        ∃ e, load w options source = .error e := by
  refine ⟨fun D h source' => exists_tagsKnown_of_meets h, ?_⟩
  intro source' v tag content hmeets hvalue hnode hunknown
  cases hload : load w options source with
  | error e => exact ⟨e, rfl⟩
  | ok D =>
    obtain ⟨v', hvalue', hknown⟩ := exists_tagsKnown_of_meets hload hmeets
    rw [hvalue.eq hvalue'] at hnode
    rw [hknown tag content hnode] at hunknown
    cases hunknown

end YamlWeave
