import YamlWeave.Proofs.Loader.Alone
import YamlWeave.Proofs.Loader.Inclusion

/-!
# Including a mapping and pasting it

Where merge keys are not resolved, a node that includes a file with a mapping can be exchanged for
that mapping, anywhere among the values and elements of a document (`resolved_pasted`). The one run
reads the file with a loader that has another root and one more file open, and copies what comes
out; the other one goes on in place. What keeps them together is that absolute names are the same
from every root, that more open files only matter where a load is cut off, and that copying a
mapping with distinct keys gives the mapping.

A value in which one node is exchanged (`Value.Exchanged`) is resolved as before as soon as the node
is, since all parts before it are, and nothing but the node itself is looked at
(`resolved_exchanged`).
-/

set_option autoImplicit false

namespace YamlWeave

namespace Value

/-- One value is another one with a value of an entry or an element exchanged, at any depth, but not
inside the operand of a node that includes files. -/
inductive Exchanged (old new : Value) : Value → Value → Prop
  | element {front back : List Value} :
      Exchanged old new (.sequence (front ++ old :: back)) (.sequence (front ++ new :: back))
  | value {front back : Entries} {key : Value} :
      Exchanged old new (.mapping (front ++ (key, old) :: back))
        (.mapping (front ++ (key, new) :: back))
  | inElement {front back : List Value} {x y : Value} (h : Exchanged old new x y) :
      Exchanged old new (.sequence (front ++ x :: back)) (.sequence (front ++ y :: back))
  | inKey {front back : Entries} {value x y : Value} (h : Exchanged old new x y) :
      Exchanged old new (.mapping (front ++ (x, value) :: back))
        (.mapping (front ++ (y, value) :: back))
  | inValue {front back : Entries} {key x y : Value} (h : Exchanged old new x y) :
      Exchanged old new (.mapping (front ++ (key, x) :: back))
        (.mapping (front ++ (key, y) :: back))
  | inContent {tag : Tag} {x y : Value} (htag : Handler.ofTag? tag.text ≠ some .inclusion)
      (h : Exchanged old new x y) : Exchanged old new (.tagged tag x) (.tagged tag y)

variable {r : Resolver} {old new x y C C' : Value}

/-- Where the key of an entry stands among the parts of a mapping. -/
theorem parts_append_key (front back : Entries) (key value : Value) :
    (mapping (front ++ (key, value) :: back)).parts =
      (mapping front).parts ++ key :: value :: (mapping back).parts := by
  simp [parts]

/-- Where the value of an entry stands among the parts of a mapping: behind its key. -/
theorem parts_append_value (front back : Entries) (key value : Value) :
    (mapping (front ++ (key, value) :: back)).parts =
      ((mapping front).parts ++ [key]) ++ value :: (mapping back).parts := by
  simp [parts]

/-- A value without a tag is resolved as before when one of its parts is. All other parts are the
same and in the same places, so a failure in front of the part decides both outcomes alike. -/
theorem resolved_of_part (hC : C.isTagged = false) (hC' : C'.isTagged = false)
    {front back : List Value} (hparts : C.parts = front ++ x :: back)
    (hparts' : C'.parts = front ++ y :: back) (hplace : C'.withParts = C.withParts)
    (hpart : ¬ Circular (resolved r x) → resolved r y = resolved r x)
    (h : ¬ Circular (resolved r C)) : resolved r C' = resolved r C := by
  rw [resolved_of_not_tagged hC] at h
  rw [resolved_of_not_tagged hC, resolved_of_not_tagged hC', hparts, hparts', hplace]
  congr 1
  rw [List.mapM_append, List.mapM_append]
  cases hfront : front.mapM (resolved r) with
  | error e => rfl
  | ok _ =>
    have hx : ¬ Circular (resolved r x) := by
      rintro ⟨path, hx⟩
      refine h ⟨path, map_eq_error.mpr (mapM_eq_error.mpr ⟨front, x, back, hparts, ?_, hx⟩)⟩
      intro before hbefore
      obtain ⟨u, -, hu⟩ := exists_ok_of_mapM_eq_ok hfront hbefore
      exact ⟨u, hu⟩
    rw [List.mapM_cons, List.mapM_cons, hpart hx]

/-- What is exchanged stands inside a collection, with tags in front of it at most, so neither of
the two values is null. A node for a variable would look for null through tags. -/
theorem Exchanged.isNull (h : Exchanged old new x y) : x.isNull = false ∧ y.isNull = false := by
  induction h with
  | inContent _ _ ih => exact ih
  | _ => exact ⟨rfl, rfl⟩

/-- What a node calls for does not change with an exchange inside its content: it depends on the
constructor of the content and on whether the content is null. -/
theorem demand_exchanged (tag : Tag) (h : Exchanged old new x y) :
    r.demand tag y = r.demand tag x := by
  obtain ⟨hx, hy⟩ := h.isNull
  have henvironment : r.environment tag y = r.environment tag x := by
    rw [Resolver.environment, Resolver.environment, hx, hy]
    cases h <;> rfl
  unfold Resolver.demand
  rw [henvironment]
  cases h <;> rfl

/-- A value is resolved as before when a node in it is exchanged for one that is resolved alike. The
induction goes from the outside in, and carries along that the load is not cut off. -/
theorem resolved_exchanged (hexchanged : Exchanged old new C C')
    (hnode : ¬ Circular (resolved r old) → resolved r new = resolved r old)
    (h : ¬ Circular (resolved r C)) : resolved r C' = resolved r C := by
  induction hexchanged with
  | element => exact resolved_of_part rfl rfl rfl rfl rfl hnode h
  | value =>
    exact resolved_of_part rfl rfl (parts_append_value _ _ _ _) (parts_append_value _ _ _ _) rfl
      hnode h
  | inElement _ ih => exact resolved_of_part rfl rfl rfl rfl rfl ih h
  | inKey _ ih =>
    exact resolved_of_part rfl rfl (parts_append_key _ _ _ _) (parts_append_key _ _ _ _) rfl ih h
  | inValue _ ih =>
    exact resolved_of_part rfl rfl (parts_append_value _ _ _ _) (parts_append_value _ _ _ _) rfl
      ih h
  | @inContent tag x y htag hxy ih =>
    rw [resolved_tagged] at h
    rw [resolved_tagged, resolved_tagged, demand_exchanged tag hxy]
    cases hdemand : r.demand tag x with
    | content place =>
      rw [hdemand] at h
      have hx : ¬ Circular (resolved r x) := by
        rintro ⟨path, hx⟩
        exact h ⟨path, map_eq_error.mpr hx⟩
      simp only [ih hx]
    | files => exact absurd (Resolver.demand_eq_files_iff.mp hdemand).2 htag
    | nothing outcome => rfl

/-- A mapping is resolved to a mapping, though perhaps to one with fewer entries. -/
theorem exists_mapping_of_resolved {entries : Entries} {u : Value}
    (h : resolved r (.mapping entries) = .ok u) : ∃ others, u = .mapping others := by
  rw [resolved_of_not_tagged rfl] at h
  obtain ⟨parts, -, rfl⟩ := map_eq_ok.mp h
  exact ⟨_, rfl⟩

end Value

/-- A node includes one file, the file holds a mapping, and all names of files in that mapping are
absolute. -/
structure IncludesMapping (w : World) (l : Loader) (tag : Tag) (operand : Value)
    (entries : Entries) : Prop where
  handler : Handler.ofTag? tag.text = some .inclusion
  file : ∃ name text, operand.fileNames = .ok [name] ∧ w.read (l.root / ⟨name⟩) = .ok text ∧
    Document.value? text = some (.mapping entries)
  absolute : ∀ name, (Value.mapping entries).Includes name → Path.isAbsolute ⟨name⟩ = true

namespace Loader

variable {w : World} {l : Loader}

/-- A value with absolute names of files only is resolved in place as it is inside a file that is
included, when it is not cut off there. In place fewer files are open, and absolute names do not
depend on the root. -/
theorem resolved_in_place {v : Value} {path key : Path}
    (habsolute : ∀ name, v.Includes name → Path.isAbsolute ⟨name⟩ = true) {inside : Loader}
    (hinside : inside = (l.forInclude path).enter key)
    (h : ¬ Circular (v.resolved (inside.resolver w (inside.included w)))) :
    v.resolved (l.resolver w (l.included w)) =
      v.resolved (inside.resolver w (inside.included w)) := by
  subst hinside
  refine Value.resolved_congr (fun name hname => ?_) (fun _ _ => rfl) fun q hq => ?_
  · show l.root / ⟨name⟩ = path.directory / ⟨name⟩
    have hname := habsolute name hname
    rw [Path.join_of_isAbsolute hname, Path.join_of_isAbsolute hname]
  · have hnarrower : Narrower (l.forInclude q) (((l.forInclude path).enter key).forInclude q) := by
      refine ⟨rfl, rfl, fun file hfile => ?_⟩
      have hself : l.isOpen file = true :=
        List.any_eq_true.mpr ⟨file, hfile, by rw [Path.sameAs, beq_self_eq_true]⟩
      show (key.sameAs file || l.isOpen file) = true
      rw [hself, Bool.or_true]
    refine loadFile_of_narrower hnarrower ?_
    rintro ⟨file, hfile⟩
    exact h ⟨file, Value.resolved_eq_error_of_asks hq hfile⟩

/-- A node that includes a mapping is resolved as the mapping is in its place, unless it is cut off.
Merge keys have to be left alone, because an included file is merged on its own, before the text
around it is. -/
theorem resolved_node {tag : Tag} {operand : Value} {entries : Entries}
    (h : IncludesMapping w l tag operand entries) (hmergeKeys : l.mergeKeys = false)
    (hcircular : ¬ Circular (Value.resolved (l.resolver w (l.included w)) (.tagged tag operand))) :
    Value.resolved (l.resolver w (l.included w)) (.mapping entries) =
      Value.resolved (l.resolver w (l.included w)) (.tagged tag operand) := by
  obtain ⟨name, text, hnames, hread, hvalue⟩ := h.file
  rw [Value.resolved_of_fileNames h.handler hnames] at hcircular ⊢
  obtain ⟨path, hpath⟩ : ∃ path, path = l.root / ⟨name⟩ := ⟨_, rfl⟩
  obtain ⟨inside, hinside⟩ : ∃ inside, inside = (l.forInclude path).enter (w.key path) := ⟨_, rfl⟩
  have hjoin : (l.resolver w (l.included w)).pathOf name = path := hpath.symm
  rw [← hpath] at hread
  rw [hjoin] at hcircular ⊢
  have hopen : (l.forInclude path).isOpen (w.key path) = false := by
    by_contra hopen
    refine hcircular ⟨path, ?_⟩
    show l.included w path >>= _ = _
    rw [included, loadFile_of_isOpen (Bool.not_eq_false _ ▸ hopen)]
    rfl
  have hload : (l.resolver w (l.included w)).load path =
      Value.resolved (inside.resolver w (inside.included w)) (.mapping entries) := by
    show l.included w path = _
    rw [included, loadFile_of_read hopen hread, ← hinside, compose_of_value? hvalue]
    have hkeys : inside.mergeKeys = false := hinside ▸ hmergeKeys
    simp only [hkeys]
    exact bind_pure _
  rw [hload] at hcircular ⊢
  cases houtcome : Value.resolved (inside.resolver w (inside.included w)) (.mapping entries) with
  | error e =>
    rw [houtcome] at hcircular
    rw [resolved_in_place h.absolute hinside (houtcome ▸ hcircular), houtcome]
    rfl
  | ok u =>
    have hplace : ¬ Circular
        (Value.resolved (inside.resolver w (inside.included w)) (.mapping entries)) := by
      rintro ⟨file, hfile⟩
      rw [houtcome] at hfile
      cases hfile
    rw [resolved_in_place h.absolute hinside hplace, houtcome]
    have hdistinct : u.Distinct :=
      Value.kept_distinct.resolved (fun _ _ hD => Value.kept_distinct.loadFile hD) houtcome
    obtain ⟨others, rfl⟩ := Value.exists_mapping_of_resolved houtcome
    exact (Include.joined_singleton hdistinct nofun).symm

/-- **Including a mapping is pasting it.** Where merge keys are not resolved, a node that includes a
file with a mapping, in which all names of files are absolute, can be exchanged for that mapping
wherever it is the value of an entry or an element. The value that it stands in has the same
outcome, the order of entries and every failure included, unless that is that a load is cut off. -/
theorem resolved_pasted {tag : Tag} {operand : Value} {entries : Entries}
    (h : IncludesMapping w l tag operand entries) (hmergeKeys : l.mergeKeys = false)
    {C C' : Value} (hpasted : Value.Exchanged (.tagged tag operand) (.mapping entries) C C')
    (hcircular : ¬ Circular (C.resolved (l.resolver w (l.included w)))) :
    C'.resolved (l.resolver w (l.included w)) = C.resolved (l.resolver w (l.included w)) :=
  Value.resolved_exchanged hpasted (resolved_node h hmergeKeys) hcircular

/-- A mapping is pasted into the operand of a function, as an element behind another one. What it
asks for itself, the variable `A`, is looked up in its new place too. -/
theorem resolved_pasted_in_operand :
    IncludesMapping (.single ⟨"/f"⟩ "x: !env A") ⟨.here, false, []⟩ ⟨"include"⟩ (.string "/f")
        [(.string "x", .tagged ⟨"env"⟩ (.string "A"))] ∧
      (Value.tagged ⟨"Ref"⟩
          (.sequence [.null, .mapping [(.string "x", .tagged ⟨"env"⟩ (.string "A"))]])).resolved
          (Loader.resolver (.single ⟨"/f"⟩ "x: !env A") ⟨.here, false, []⟩
            (Loader.included (.single ⟨"/f"⟩ "x: !env A") ⟨.here, false, []⟩)) =
        .ok (.mapping [(.string "Fn::Ref",
          .sequence [.null, .mapping [(.string "x", .null)]])]) := by
  have h : IncludesMapping (.single ⟨"/f"⟩ "x: !env A") ⟨.here, false, []⟩ ⟨"include"⟩
      (.string "/f") [(.string "x", .tagged ⟨"env"⟩ (.string "A"))] := by
    refine ⟨by decide, ⟨"/f", "x: !env A", rfl, by decide, by decide +kernel⟩, fun name hname => ?_⟩
    rw [← Value.mem_includedNames] at hname
    exact absurd hname List.not_mem_nil
  have houtcome : (Value.tagged ⟨"Ref"⟩
      (.sequence [.null, .tagged ⟨"include"⟩ (.string "/f")])).resolved
        (Loader.resolver (.single ⟨"/f"⟩ "x: !env A") ⟨.here, false, []⟩
          (Loader.included (.single ⟨"/f"⟩ "x: !env A") ⟨.here, false, []⟩)) =
      .ok (.mapping [(.string "Fn::Ref", .sequence [.null, .mapping [(.string "x", .null)]])]) := by
    decide +kernel
  have hexchanged : Value.Exchanged (.tagged ⟨"include"⟩ (.string "/f"))
      (.mapping [(.string "x", .tagged ⟨"env"⟩ (.string "A"))])
      (.tagged ⟨"Ref"⟩ (.sequence ([.null] ++ .tagged ⟨"include"⟩ (.string "/f") :: [])))
      (.tagged ⟨"Ref"⟩ (.sequence ([.null] ++
        .mapping [(.string "x", .tagged ⟨"env"⟩ (.string "A"))] :: []))) :=
    .inContent (by decide) .element
  refine ⟨h, (resolved_pasted h rfl hexchanged ?_).trans houtcome⟩
  rintro ⟨path, hpath⟩
  cases houtcome.symm.trans hpath

end Loader

end YamlWeave
