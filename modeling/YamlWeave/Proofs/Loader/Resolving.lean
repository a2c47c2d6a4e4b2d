import YamlWeave.Proofs.Loader.Inclusion
import YamlWeave.Proofs.Loader.TakingIn
import YamlWeave.Proofs.Resolve.Functions
import YamlWeave.Proofs.Resolve.Phases
import YamlWeave.Proofs.Resolve.Visited

/-!
# How tags are resolved

What a loader makes of a value by resolving its tags, told for all values, loaders and worlds:

- of several failures the first one in the order of the document counts
  (`resolving_fails_first`);
- a node that includes files fails in the first phase that it cannot bring to its end
  (`including_in_phases`);
- values without tags stay as they are, and all values that are resolved become such values, so that
  resolving them again changes nothing, in no world (`resolving_settles`);
- values with no other tags than those of functions are resolved everywhere, and to the same
  (`functions_spelled_out`).
-/

set_option autoImplicit false

namespace YamlWeave

open Value

/-! ## Which failure counts -/

namespace Loader

/-- **The first failure in the order of the document counts.** A value fails as the first node with
a tag does that fails on its own, where a node comes before what is under its tag, elements and
entries come from the first to the last, and a key comes before its value. What stands under tags
for files, for variables and under tags that are not known is left out of this order. A value in
which no node fails on its own is resolved. -/
theorem resolving_fails_first (w : World) (l : Loader) (v : Value) :
    (∀ e, v.resolved (l.resolver w (l.included w)) = .error e ↔
      ∃ front tag content back, v.visited = front ++ .tagged tag content :: back ∧
        (∀ x ∈ front, (l.resolver w (l.included w)).ownFailure? x = none) ∧
        (l.resolver w (l.included w)).ownFailure? (.tagged tag content) = some e) ∧
    ((∃ u, v.resolved (l.resolver w (l.included w)) = .ok u) ↔
      ∀ x ∈ v.visited, (l.resolver w (l.included w)).ownFailure? x = none) := by
  constructor
  · intro e
    rw [← failure?_eq_some, failure?_resolved, List.findSome?_eq_some_iff]
    constructor
    · rintro ⟨front, x, back, hsplit, hx, hfront⟩
      cases x with
      | tagged tag content => exact ⟨front, tag, content, back, hsplit, hfront, hx⟩
      | _ => cases hx
    · rintro ⟨front, tag, content, back, hsplit, hfront, hx⟩
      exact ⟨front, _, back, hsplit, hx, hfront⟩
  · rw [← failure?_eq_none, failure?_resolved, List.findSome?_eq_none_iff]

/-- Of a key, the value under it and the next entry, the key comes first. -/
example (r : Resolver) :
    (Value.mapping [(.tagged ⟨"Ref"⟩ (.sequence [.tagged ⟨"env"⟩ (.mapping [])]),
        .tagged ⟨"no"⟩ .null), (.tagged ⟨"include"⟩ .null, .null)]).resolved r =
      .error (.wrongOperand "!env" "environment variable name must be a scalar") :=
  rfl

/-! ## Phases of including -/

/-- **Including fails in a fixed order of phases.** The first node of the operand that names no file
is refused, in every world alike. When all nodes name files, the node fails as the first file does
that has no document, whatever documents come before it and whatever files after it. When all files
have documents, their kinds decide: it fails when there is none, when one is of another kind than
the first, and when all are scalars, and makes a value of the kind of all of them otherwise. -/
theorem including_in_phases (w : World) (l : Loader) {tag : Tag}
    (htag : Handler.ofTag? tag.text = some .inclusion) (operand : Value) :
    (∀ outcome, (Value.tagged tag operand).resolved (l.resolver w (l.included w)) = outcome ↔
      (l.resolver w (l.included w)).IncludesTo operand outcome) ∧
    (∀ node ∈ operand.naming, node.namesFile = false → ∀ (w' : World) (l' : Loader),
      (Value.tagged tag operand).resolved (l'.resolver w' (l'.included w')) =
        (Value.tagged tag operand).resolved (l.resolver w (l.included w))) ∧
    ∀ u, (Value.tagged tag operand).resolved (l.resolver w (l.included w)) = .ok u →
      u.kind ≠ .scalar ∧ ∀ name ∈ operand.listed, ∃ D,
        ((l.forInclude (l.root / ⟨name⟩)).loadFile w (l.root / ⟨name⟩)).1 = .ok D ∧
          D.kind = u.kind := by
  have hnode : ∀ r : Resolver, (Value.tagged tag operand).resolved r = r.included operand := by
    intro r
    rw [resolved_tagged, Resolver.demand_eq_files_iff.mpr ⟨not_isNonSpecific_of_ofTag? htag, htag⟩]
  simp only [hnode]
  exact ⟨fun _ => Resolver.included_eq_iff,
    fun node hmem hname w' l' => Resolver.included_eq_of_noName hmem hname _ _,
    fun u hu => Resolver.kind_of_included hu⟩

/-- A file that cannot be read counts before the scalar in front of it. Files are all loaded before
they are looked at together, and the first phase ends at the missing one. -/
theorem including_missing_file :
    Handler.ofTag? (Tag.text ⟨"import"⟩) = some .inclusion ∧
      (Value.tagged ⟨"import"⟩ (.sequence [.string "/f", .int 5, .string "/f"])).resolved
          (Loader.resolver (.single ⟨"/f"⟩ "text") ⟨⟨"/"⟩, true, []⟩
            (Loader.included (.single ⟨"/f"⟩ "text") ⟨⟨"/"⟩, true, []⟩)) =
        .error (.unreadable ⟨"/5"⟩ .notFound) := by
  have htag : Handler.ofTag? (Tag.text ⟨"import"⟩) = some .inclusion := by decide
  refine ⟨htag, ((including_in_phases _ _ htag _).1 _).mpr ?_⟩
  have hsplit : (Value.sequence [.string "/f", .int 5, .string "/f"]).listed =
      ["/f"] ++ "5" :: ["/f"] := by decide +kernel
  refine .noDocument (by decide) hsplit ?_ (by decide +kernel)
  intro earlier hearlier
  rw [List.mem_singleton.mp hearlier]
  exact ⟨.string "text", by decide +kernel⟩

end Loader

/-! ## Values without tags -/

/-- **Resolving leaves values without tags alone, and settles.** A value that holds no tag and no
mapping with two keys that are the same is resolved to itself, the order of entries and the spelling
of keys included. Whatever a value is resolved to is such a value, so resolving it again gives it
back, for every loader and in every world. -/
theorem Loader.resolving_settles (w : World) (l : Loader) :
    (∀ v : Value, v.TagFree → v.KeysDiffer → v.resolved (l.resolver w (l.included w)) = .ok v) ∧
    ∀ v u : Value, v.resolved (l.resolver w (l.included w)) = .ok u →
      u.TagFree ∧ u.KeysDiffer ∧ ∀ (w' : World) (l' : Loader),
        u.resolved (l'.resolver w' (l'.included w')) = .ok u := by
  refine ⟨fun v hfree hkeys => resolved_of_tagFree hfree hkeys.distinct, fun v u hu => ?_⟩
  have hfree : u.TagFree := kept_tagFree.resolved (fun _ _ hD => kept_tagFree.loadFile hD) hu
  have hdistinct : u.Distinct := kept_distinct.resolved (fun _ _ hD => kept_distinct.loadFile hD) hu
  exact ⟨hfree, hdistinct.keysDiffer, fun w' l' => resolved_of_tagFree hfree hdistinct⟩

/-! ## Functions -/

namespace Loader

/-- **Functions are spelled out from the inside out, and this never fails.** A value all of whose
tags, at any depth and in keys too, are those of functions that do not stand directly on another
tag, or say nothing, is resolved by every loader and in every world, and to the same: to the value
with its functions spelled out. -/
theorem functions_spelled_out {v : Value} (h : v.OnlyFunctions) (w : World) (l : Loader) :
    v.resolved (l.resolver w (l.included w)) = .ok v.spelledOut :=
  resolved_of_onlyFunctions h

/-- A function in a key becomes a key that is there already, and the two entries become one: the
spelling of the first and the value of the second. A function inside another one is spelled out
too. -/
theorem functions_spelled_out_in_key :
    ∃ v, Document.value? "{!Ref A: ! 12, {Fn::Ref: A}: !Join [1, !GetAZs ]}" = some v ∧
      v.OnlyFunctions ∧ ∀ (w : World) (l : Loader), v.resolved (l.resolver w (l.included w)) =
        .ok (.mapping [(.mapping [(.string "Fn::Ref", .string "A")],
          function "Join" (.sequence [.int 1, function "GetAZs" (.string "")]))]) := by
  have hvalue : Document.value? "{!Ref A: ! 12, {Fn::Ref: A}: !Join [1, !GetAZs ]}" =
      some (.mapping [(.tagged ⟨"Ref"⟩ (.string "A"), .tagged ⟨"!"⟩ (.int 12)),
        (.mapping [(.string "Fn::Ref", .string "A")],
          .tagged ⟨"Join"⟩ (.sequence [.int 1, .tagged ⟨"GetAZs"⟩ .null]))]) := by
    decide +kernel
  have h : (Value.mapping [(.tagged ⟨"Ref"⟩ (.string "A"), .tagged ⟨"!"⟩ (.int 12)),
      (.mapping [(.string "Fn::Ref", .string "A")],
        .tagged ⟨"Join"⟩ (.sequence [.int 1, .tagged ⟨"GetAZs"⟩ .null]))]).OnlyFunctions := by
    decide
  refine ⟨_, hvalue, h, fun w l => (functions_spelled_out h w l).trans ?_⟩
  decide +kernel

end Loader

end YamlWeave
