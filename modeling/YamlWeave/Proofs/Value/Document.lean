import YamlWeave.Proofs.Value.Distinct
import YamlWeave.Value.Document

/-!
# What texts can hold

The value of a text is put together while aliases are followed, which are counted and may run out.
What such a computation may give, whatever is left to follow (`Following.Gives`), is all that the
laws of values ask about.

A node gives a scalar or a collection of what other nodes give, and puts one tag on it at most. What
these steps keep holds of the values of all texts (`value?_induction`). So in the value of a text no
tag stands directly on a value with a tag (`taggedOnce_of_value?`), and no mapping has a key twice
(`distinct_of_value?`).
-/

set_option autoImplicit false

namespace YamlWeave

namespace Document

namespace Following

variable {α β : Type}

/-- A computation may give a result, for some number of aliases left to follow. -/
def Gives (x : Following α) (a : α) : Prop :=
  ∃ left left', x.run left = some (a, left')

theorem gives_pure {a b : α} : Gives (pure a) b ↔ b = a := by
  constructor
  · rintro ⟨left, left', h⟩
    cases h
    rfl
  · rintro rfl
    exact ⟨0, 0, rfl⟩

/-- A computation that fails gives nothing, however many aliases may be followed. -/
theorem not_gives_failure {a : α} : ¬ Gives failure a := by
  rintro ⟨left, left', h⟩
  cases h

/-- What two steps give is given by the second from something that the first gives. How many aliases
were left in between is forgotten here. -/
theorem exists_of_gives_bind {x : Following α} {f : α → Following β} {b : β}
    (h : Gives (x >>= f) b) : ∃ a, x.Gives a ∧ (f a).Gives b := by
  obtain ⟨left, left', h⟩ := h
  rw [StateT.run_bind] at h
  obtain ⟨⟨a, between⟩, hx, hf⟩ := Option.bind_eq_some_iff.mp h
  exact ⟨a, ⟨left, between, hx⟩, between, left', hf⟩

/-- What a row of computations gives comes from its elements. How many aliases each of them leaves
the next one to follow does not matter. -/
theorem exists_mem_of_gives_mapM {f : α → Following β} {items : List α} {bs : List β}
    (h : Gives (items.mapM f) bs) {b : β} (hb : b ∈ bs) : ∃ a ∈ items, (f a).Gives b := by
  induction items generalizing bs with
  | nil =>
    rw [List.mapM_nil, gives_pure] at h
    exact absurd (h ▸ hb) List.not_mem_nil
  | cons item items ih =>
    rw [List.mapM_cons] at h
    obtain ⟨first, hfirst, h⟩ := exists_of_gives_bind h
    obtain ⟨rest, hrest, h⟩ := exists_of_gives_bind h
    rw [gives_pure.mp h] at hb
    rcases List.mem_cons.mp hb with rfl | hb
    · exact ⟨item, List.mem_cons_self, hfirst⟩
    · obtain ⟨a, ha, hgives⟩ := ih hrest hb
      exact ⟨a, List.mem_cons_of_mem item ha, hgives⟩

/-- What every step keeps holds of what a row of steps gives. The entries of a mapping are checked
for their keys by such a row. -/
theorem of_gives_foldlM {P : β → Prop} {f : β → α → Following β} {items : List α}
    (hstep : ∀ before item after, P before → (f before item).Gives after → P after) {start out : β}
    (hstart : P start) (h : Gives (items.foldlM f start) out) : P out := by
  induction items generalizing start with
  | nil =>
    rw [List.foldlM_nil, gives_pure] at h
    exact h ▸ hstart
  | cons item items ih =>
    rw [List.foldlM_cons] at h
    obtain ⟨after, hafter, h⟩ := exists_of_gives_bind h
    exact ih (hstep start item after hstart hafter) h

end Following

end Document

namespace TagUse

open Value

/-- A plain text is read as null, a boolean, a number or a string, and never as a collection or with
a tag on it. The cases are those of the reader, in its order. -/
theorem isScalar_of_plain {text : String} {v : Value} (h : Plain.value? text = some v) :
    v.isScalar = true := by
  unfold Plain.value? at h
  split at h
  · cases h
    rfl
  · split at h
    · cases h
      rfl
    · simp only at h
      split at h
      · split at h
        · cases h
          rfl
        · split at h
          · cases h
          · cases h
            split
            · rfl
            · split <;> rfl
      · cases h
        split
        · rfl
        · split <;> rfl

theorem isScalar_of_untagged {plain : Bool} {text : String} {v : Value}
    (h : untagged? plain text = some v) : v.isScalar = true := by
  unfold untagged? at h
  split at h
  · exact isScalar_of_plain h
  · cases h
    rfl

/-- A scalar is a scalar, or one under a tag. No more than one tag comes with a node. -/
theorem scalar?_cases {use : TagUse} {plain : Bool} {text : String} {v : Value}
    (h : use.scalar? plain text = some v) :
    v.isScalar = true ∨ ∃ tag content, content.isScalar = true ∧ v = tagged tag content := by
  unfold scalar? at h
  split at h
  · exact .inl (isScalar_of_untagged h)
  · exact .inl (isScalar_of_untagged h)
  · obtain ⟨content, hcontent, rfl⟩ := Option.map_eq_some_iff.mp h
    exact .inr ⟨_, content, isScalar_of_untagged hcontent, rfl⟩
  · obtain ⟨b, -, rfl⟩ := Option.map_eq_some_iff.mp h
    exact .inl rfl
  · obtain ⟨i, -, h⟩ := Option.bind_eq_some_iff.mp h
    split at h <;> cases h
    exact .inl rfl
  · obtain ⟨x, -, rfl⟩ := Option.map_eq_some_iff.mp h
    exact .inl rfl
  · split at h <;> cases h
    exact .inl rfl
  · cases h
    exact .inl rfl

/-- A collection stays as it is, or comes under a tag. Whether it does depends on the tag only. -/
theorem collection_cases (use : TagUse) (content : Value) :
    use.collection content = content ∨ ∃ tag, use.collection content = tagged tag content := by
  unfold collection
  split
  · exact .inr ⟨_, rfl⟩
  · exact .inl rfl

end TagUse

namespace Document

open Markup Value Following

variable {table : List (Slot × Node Slot)} {depth : Nat} {node : Node Slot} {v : Value}

/-- A node gives a scalar, or a collection whose parts other nodes give one level below. The level
bounds how deep the value is, and the induction on it needs no bound on aliases. -/
theorem nodeValue_cases (h : (nodeValue table depth node).Gives v) :
    (∃ use plain text, TagUse.scalar? use plain text = some v) ∨
    ∃ use content inner, v = TagUse.collection use content ∧ content.isTagged = false ∧
      depth = inner + 1 ∧
        (∀ part ∈ content.parts, ∃ node, (nodeValue table inner node).Gives part) ∧
          ∀ entries, content = mapping entries → Entries.Distinct entries := by
  rw [nodeValue.eq_def] at h
  obtain ⟨node', -, h⟩ := exists_of_gives_bind h
  cases node' with
  | scalar properties plain text =>
    simp only at h
    split at h
    · next value hvalue => exact .inl ⟨_, plain, text, gives_pure.mp h ▸ hvalue⟩
    · exact absurd h not_gives_failure
  | sequence properties items =>
    cases depth with
    | zero => exact absurd h not_gives_failure
    | succ depth =>
      obtain ⟨values, hvalues, h⟩ := exists_of_gives_bind h
      refine .inr ⟨_, .sequence values, depth, gives_pure.mp h, rfl, rfl, fun part hpart => ?_,
        fun _ => nofun⟩
      obtain ⟨item, -, hitem⟩ := exists_mem_of_gives_mapM hvalues hpart
      exact ⟨item, hitem⟩
  | mapping properties entries =>
    cases depth with
    | zero => exact absurd h not_gives_failure
    | succ depth =>
      obtain ⟨done, hdone, h⟩ := exists_of_gives_bind h
      have hkept : (∀ part ∈ (mapping done).parts,
          ∃ node, (nodeValue table depth node).Gives part) ∧ Entries.Distinct done := by
        refine of_gives_foldlM (P := fun done => (∀ part ∈ (mapping done).parts,
          ∃ node, (nodeValue table depth node).Gives part) ∧ Entries.Distinct done) ?_
          ⟨fun _ hpart => absurd hpart List.not_mem_nil, .nil⟩ hdone
        rintro before entry after ⟨hbefore, hdistinct⟩ hafter
        obtain ⟨key, hkey, hafter⟩ := exists_of_gives_bind hafter
        split at hafter
        · exact absurd hafter not_gives_failure
        · next hnew =>
          obtain ⟨value, hvalue, hafter⟩ := exists_of_gives_bind hafter
          rw [gives_pure.mp hafter]
          refine ⟨fun part hpart => ?_,
            Entries.distinct_append_singleton hdistinct (Bool.eq_false_iff.mpr hnew)⟩
          obtain ⟨other, hother, hpart⟩ := mem_parts_mapping.mp hpart
          rcases List.mem_append.mp hother with hother | hother
          · exact hbefore part (mem_parts_mapping.mpr ⟨other, hother, hpart⟩)
          · rw [List.mem_singleton.mp hother] at hpart
            rcases hpart with rfl | rfl
            · exact ⟨_, hkey⟩
            · exact ⟨_, hvalue⟩
      refine .inr ⟨_, .mapping done, depth, gives_pure.mp h, rfl, rfl, hkept.1, ?_⟩
      rintro _ ⟨⟩
      exact hkept.2
  -- What is left is an alias that names an alias.
  | _ => exact absurd h not_gives_failure

/-- What holds of scalars, of collections as soon as it holds of their parts, and of both under a
tag holds of the value of every text. Collections come without a tag here, and their keys are known
to be distinct. -/
theorem value?_induction {P : Value → Prop} (scalar : ∀ v : Value, v.isScalar = true → P v)
    (collection : ∀ content : Value, content.isTagged = false → (∀ part ∈ content.parts, P part) →
      (∀ entries, content = .mapping entries → Entries.Distinct entries) → P content)
    (tagged : ∀ tag content, content.isTagged = false → P content → P (.tagged tag content))
    {text : String} (h : value? text = some v) : P v := by
  have hscalar : ∀ {use : TagUse} {plain text v}, use.scalar? plain text = some v → P v := by
    intro use plain text v hv
    rcases TagUse.scalar?_cases hv with hv | ⟨tag, content, hcontent, rfl⟩
    · exact scalar v hv
    · exact tagged tag content (isTagged_of_isScalar hcontent) (scalar content hcontent)
  have hnode : ∀ {table depth node v}, (nodeValue table depth node).Gives v → P v := by
    intro table depth node v h
    induction depth generalizing node v with
    | zero =>
      rcases nodeValue_cases h with ⟨use, plain, text, hv⟩ | ⟨_, _, _, _, _, hdepth, _⟩
      · exact hscalar hv
      · cases hdepth
    | succ depth ih =>
      rcases nodeValue_cases h with ⟨use, plain, text, hv⟩ |
        ⟨use, content, inner, rfl, htag, hdepth, hparts, hdistinct⟩
      · exact hscalar hv
      · cases hdepth
        have hcontent : P content := by
          refine collection content htag (fun part hpart => ?_) hdistinct
          obtain ⟨node, hnode⟩ := hparts part hpart
          exact ih hnode
        rcases TagUse.collection_cases use content with heq | ⟨tag, heq⟩
        · rw [heq]
          exact hcontent
        · rw [heq]
          exact tagged tag content htag hcontent
  obtain ⟨content, -, h⟩ := Option.bind_eq_some_iff.mp h
  cases content with
  | nothing =>
    cases h
    exact scalar _ rfl
  | document root =>
    obtain ⟨placed, -, h⟩ := Option.bind_eq_some_iff.mp h
    obtain ⟨⟨value, left⟩, hvalue, h⟩ := Option.bind_eq_some_iff.mp h
    cases h
    exact hnode ⟨_, left, hvalue⟩

/-- In the value of a text no tag stands directly on a value with a tag. An alias may stand under no
tag of its own, so it cannot bring a second one either. -/
theorem taggedOnce_of_value? {text : String} (h : value? text = some v) : v.TaggedOnce := by
  refine value?_induction (fun _ => taggedOnce_of_isScalar) (fun content htag hparts _ => ?_)
    (fun tag content htag hcontent => hcontent.tagged htag tag) h
  refine taggedOnce_of_parts ?_ hparts
  rintro tag inner rfl
  cases htag

/-- In the value of a text no mapping has a key twice. A text that writes one has no value. -/
theorem distinct_of_value? {text : String} (h : value? text = some v) : v.Distinct := by
  refine value?_induction (fun _ => distinct_of_isScalar) (fun content _ hparts hdistinct => ?_)
    (fun tag content _ hcontent => ?_) h
  · exact distinct_of_parts hparts hdistinct
  · refine distinct_of_parts (fun part hpart => ?_) fun _ => nofun
    exact List.mem_singleton.mp hpart ▸ hcontent

end Document

end YamlWeave
