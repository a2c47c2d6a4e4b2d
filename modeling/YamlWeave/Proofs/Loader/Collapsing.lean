import YamlWeave.Proofs.Loader.Kept
import YamlWeave.Proofs.Resolve.Visited
import YamlWeave.Proofs.Value.Collapsing

/-!
# Keys that become the same

Keys of a mapping are resolved as values are, so keys that differ may become the same. Of the
entries with such keys one is left, with the key and the place of the first and the value of the
last of them. All other entries stay, in their order (`resolving_collapses_keys`).

This holds of every mapping that resolving gets to, at any depth. Where no keys become the same,
nothing is lost: each of these mappings stands inside the outcome with all its entries in their
places (`exists_within_of_visited`).
-/

set_option autoImplicit false

namespace YamlWeave

namespace Value

variable {r : Resolver} {v u : Value} {entries others : Entries}

/-- Entry by entry, keys and values are resolved to those of other entries. -/
def EntriesResolve (r : Resolver) (entries others : Entries) : Prop :=
  List.Forall₂ (fun entry other =>
    entry.1.resolved r = .ok other.1 ∧ entry.2.resolved r = .ok other.2) entries others

/-- Entries are resolved when all their keys and values are, each to the entry in its place. -/
theorem resolvedEntries_eq_ok : resolvedEntries r entries = .ok others ↔
    EntriesResolve r entries others := by
  induction entries generalizing others with
  | nil =>
    rw [EntriesResolve, List.forall₂_nil_left_iff, resolvedEntries, Except.ok.injEq, eq_comm]
  | cons entry entries ih =>
    obtain ⟨key, value⟩ := entry
    rw [EntriesResolve, List.forall₂_cons_left_iff, resolvedEntries, bind_eq_ok]
    constructor
    · rintro ⟨key', hkey, h⟩
      obtain ⟨value', hvalue, h⟩ := bind_eq_ok.mp h
      obtain ⟨rest, hrest, h⟩ := bind_eq_ok.mp h
      cases h
      exact ⟨(key', value'), rest, ⟨hkey, hvalue⟩, ih.mp hrest, rfl⟩
    · rintro ⟨⟨key', value'⟩, rest, ⟨hkey, hvalue⟩, hrest, rfl⟩
      exact ⟨key', hkey, bind_eq_ok.mpr ⟨value', hvalue, bind_eq_ok.mpr ⟨rest, ih.mpr hrest, rfl⟩⟩⟩

/-- A mapping is resolved when its entries are, and the outcome is made of these, put in one after
the other. -/
theorem resolved_mapping_eq_ok : resolved r (.mapping entries) = .ok u ↔
    ∃ others, EntriesResolve r entries others ∧ u = .mapping (Entries.ofList others) := by
  rw [resolved, bind_eq_ok]
  exact exists_congr fun others => and_congr resolvedEntries_eq_ok
    ⟨fun h => (Except.ok.inj h).symm, fun h => congrArg Except.ok h.symm⟩

/-- Resolved keys can be told apart when those of documents can. The hypothesis on loaded documents
is met by every load (`Value.kept_distinct`). -/
theorem EntriesResolve.proper (hload : ∀ q D, r.load q = .ok D → D.Distinct)
    (h : EntriesResolve r entries others) : Entries.Proper others := by
  intro other hother
  obtain ⟨entry, -, hkey, -⟩ := exists_left_of_forall₂ h hother
  exact kept_distinct.resolved hload hkey

/-- Entries stay when no two of their keys become the same. What may change the place or the number
of entries is the putting together alone. -/
theorem EntriesResolve.ofList_eq (hload : ∀ q D, r.load q = .ok D → D.Distinct)
    (h : EntriesResolve r entries others)
    (hkeys : others.Pairwise fun a b => a.1.same b.1 = false) :
    Entries.ofList others = others := by
  have hproper := h.proper hload
  refine Entries.ofList_of_distinct (hkeys.imp_of_mem fun ha hb hne => ?_)
  rw [same_symm (hproper _ hb) (hproper _ ha), hne]

/-- No two keys become the same in any mapping that resolving gets to inside a value. -/
def KeysStayApart (v : Value) (r : Resolver) : Prop :=
  ∀ entries others, mapping entries ∈ v.visited → EntriesResolve r entries others →
    others.Pairwise fun a b => a.1.same b.1 = false

/-- Where keys stay apart in a value, they do so in everything that resolving gets to inside it. -/
theorem KeysStayApart.part {part : Value} (h : v.KeysStayApart r) (hpart : part ∈ v.visited) :
    part.KeysStayApart r :=
  fun entries others hentries => h entries others (visited_subset hpart hentries)

/-- Each part of a value without a tag is resolved to a part of the outcome, unless keys of its own
become the same. In that case an earlier value would be replaced and be found nowhere. -/
theorem exists_mem_parts_of_resolved (hload : ∀ q D, r.load q = .ok D → D.Distinct)
    (huntagged : v.isTagged = false) (h : resolved r v = .ok u) (hkeys : v.KeysStayApart r)
    {part : Value} (hpart : part ∈ v.parts) : ∃ y ∈ u.parts, resolved r part = .ok y := by
  cases v with
  | sequence items =>
    rw [resolved_of_not_tagged huntagged] at h
    obtain ⟨parts, hparts, rfl⟩ := map_eq_ok.mp h
    exact exists_ok_of_mapM_eq_ok hparts hpart
  | mapping entries =>
    obtain ⟨others, hothers, rfl⟩ := resolved_mapping_eq_ok.mp h
    rw [hothers.ofList_eq hload (hkeys entries others (mem_visited_self _) hothers)]
    obtain ⟨entry, hentry, heq⟩ := mem_parts_mapping.mp hpart
    obtain ⟨other, hother, hkey, hvalue⟩ := exists_left_of_forall₂ hothers.flip hentry
    rcases heq with rfl | rfl
    · exact ⟨other.1, mem_parts_mapping.mpr ⟨other, hother, .inl rfl⟩, hkey⟩
    · exact ⟨other.2, mem_parts_mapping.mpr ⟨other, hother, .inr rfl⟩, hvalue⟩
  | tagged tag content => cases huntagged
  | _ => exact absurd hpart List.not_mem_nil

/-- What stands under a tag stands inside what the node makes of it, be that the content itself or
the operand of a function. -/
theorem within_place {tag : Tag} {content : Value} {place : Value → Value}
    (h : r.demand tag content = .content place) (y : Value) : y.Within (place y) := by
  have hfunction : ∀ name, y.Within (function name y) := fun name =>
    .part (mem_parts_mapping.mpr ⟨_, List.mem_cons_self, .inr rfl⟩) (.self y)
  unfold Resolver.demand at h
  split at h
  · split at h <;> cases h <;> exact .self y
  · split at h
    · cases h
    · cases h
    · split at h <;> cases h <;> exact hfunction _
    · cases h

/-- What stands under a tag that opens is resolved, and stands inside the outcome. A scalar is
excluded, since only its text goes into the outcome. -/
theorem exists_within_of_opens {tag : Tag} {content : Value} (hopens : tag.opens = true)
    (hcontent : content.isScalar = false) (h : resolved r (.tagged tag content) = .ok u) :
    ∃ y, resolved r content = .ok y ∧ y.Within u := by
  rw [resolved_tagged] at h
  cases hdemand : r.demand tag content with
  | content place =>
    rw [hdemand] at h
    obtain ⟨y, hy, rfl⟩ := map_eq_ok.mp h
    exact ⟨y, hy, within_place hdemand y⟩
  | files =>
    obtain ⟨hspecific, htag⟩ := Resolver.demand_eq_files_iff.mp hdemand
    simp [Tag.opens, hspecific, htag] at hopens
  | nothing outcome =>
    rw [hdemand] at h
    have houtcome : outcome = .ok u := h
    rcases Resolver.isScalar_of_demand_eq_ok (houtcome ▸ hdemand) with hscalar | ⟨htag, -⟩
    · exact Bool.noConfusion (hscalar.symm.trans hcontent)
    · simp [Tag.opens, not_isNonSpecific_of_ofTag? htag, htag] at hopens

/-- Where no keys become the same, every mapping that resolving gets to stands resolved inside the
outcome, with all its entries in their places. The induction follows the order of `Value.visited`,
so keys and contents under tags are reached too. -/
theorem exists_within_of_visited (hload : ∀ q D, r.load q = .ok D → D.Distinct)
    (h : resolved r v = .ok u) (hkeys : v.KeysStayApart r)
    (hentries : mapping entries ∈ v.visited) :
    ∃ others, EntriesResolve r entries others ∧ (mapping others).Within u := by
  induction v using parts_induction generalizing u with
  | step v ih =>
    cases htag : v.isTagged with
    | false =>
      rw [visited_of_not_tagged htag] at hentries
      rcases List.mem_cons.mp hentries with rfl | hinside
      · obtain ⟨others, hothers, rfl⟩ := resolved_mapping_eq_ok.mp h
        rw [hothers.ofList_eq hload (hkeys entries others (mem_visited_self _) hothers)]
        exact ⟨others, hothers, .self _⟩
      · obtain ⟨part, hpart, hinside⟩ := List.mem_flatMap.mp hinside
        have hvisited := mem_visited_of_part htag hpart (mem_visited_self part)
        obtain ⟨y, hy, hpartResolved⟩ := exists_mem_parts_of_resolved hload htag h hkeys hpart
        obtain ⟨others, hothers, hwithin⟩ :=
          ih part hpart hpartResolved (hkeys.part hvisited) hinside
        exact ⟨others, hothers, .part hy hwithin⟩
    | true =>
      cases v with
      | tagged tag content =>
        rw [visited] at hentries
        rcases List.mem_cons.mp hentries with heq | hinside
        · cases heq
        · split at hinside
          · next hopens =>
            have hcontent : content.isScalar = false := by
              cases content <;> first | rfl | cases List.mem_singleton.mp hinside
            obtain ⟨y, hy, hwithin⟩ := exists_within_of_opens hopens hcontent h
            have hvisited : content ∈ (tagged tag content).visited := by
              rw [visited, if_pos hopens]
              exact List.mem_cons_of_mem _ (mem_visited_self content)
            obtain ⟨others, hothers, hinner⟩ :=
              ih content List.mem_cons_self hy (hkeys.part hvisited) hinside
            exact ⟨others, hothers, hinner.trans hwithin⟩
          · exact absurd hinside List.not_mem_nil
      | _ => cases htag

end Value

/-- **Keys that become the same are made one, and nothing else is lost.** A mapping is resolved to
what its entries come down to, once their keys and values are resolved: one entry for each key, with
the key and the place of the first entry for it and the value of the last one. When no two of the
resolved keys are the same, it is resolved to its entries, one for one. The same holds of every
mapping that resolving gets to inside a value, and as long as no keys become the same, each of them
stands in the outcome with all its entries. -/
theorem Loader.resolving_collapses_keys (w : World) (l : Loader) :
    (∀ entries u, (Value.mapping entries).resolved (l.resolver w (l.included w)) = .ok u →
      ∃ others merged, Value.EntriesResolve (l.resolver w (l.included w)) entries others ∧
        u = .mapping merged ∧ Entries.Collapses others merged ∧
          (others.Pairwise (fun a b => a.1.same b.1 = false) → merged = others)) ∧
    ∀ v u : Value, v.resolved (l.resolver w (l.included w)) = .ok u →
      ∀ entries, .mapping entries ∈ v.visited →
        (∃ y, (Value.mapping entries).resolved (l.resolver w (l.included w)) = .ok y) ∧
          (v.KeysStayApart (l.resolver w (l.included w)) → ∃ others,
            Value.EntriesResolve (l.resolver w (l.included w)) entries others ∧
              (Value.mapping others).Within u) := by
  have hload : ∀ q D, l.included w q = .ok D → D.Distinct :=
    fun _ _ hD => Value.kept_distinct.loadFile hD
  refine ⟨fun entries u hu => ?_, fun v u hu entries hentries => ?_⟩
  · obtain ⟨others, hothers, rfl⟩ := Value.resolved_mapping_eq_ok.mp hu
    exact ⟨others, _, hothers, rfl, Entries.collapses_ofList (hothers.proper hload),
      hothers.ofList_eq hload⟩
  · exact ⟨Value.exists_resolved_of_visited hu hentries,
      fun hkeys => Value.exists_within_of_visited hload hu hkeys hentries⟩

/-- A truth value under a tag that says nothing becomes the text that is a key already. -/
example (r : Resolver) :
    (Value.mapping [(.tagged ⟨""⟩ (.bool true), .int 1), (.bool true, .int 2),
        (.string "true", .int 3)]).resolved r =
      .ok (.mapping [(.string "true", .int 3), (.bool true, .int 2)]) :=
  rfl

end YamlWeave
