import YamlWeave.Proofs.Resolve.Faults

/-!
# What a value asks for

While its tags are resolved, a value **asks for** paths: the files that its nodes include, as far as
all that is resolved before them goes well (`Value.Asks`). The laws say how the outcome hangs on the
documents of these paths, and on nothing else that the resolver can load:

- the outcome is the same for all resolvers that agree on the paths asked for, on the variables that
  nodes name and on what the names of files stand for (`resolved_congr`);
- a value that is resolved is resolved to the same by a resolver that loads the same documents under
  the same names, from other paths too (`resolved_of_named`);
- the failure of a path asked for is the failure of the whole (`resolved_eq_error_of_asks`);
- every failure is that of a path asked for, or a node inside is at fault (`resolved_eq_error`);
- the paths asked for stand for names that including nodes list (`Asks.includes`), and a value that
  is resolved asks for all of them (`asks_of_resolved_eq_ok`).
-/

set_option autoImplicit false

namespace YamlWeave

namespace Value

/-- The names that an operand lists, those nodes left out that give none. -/
def listed : Value → List String
  | .sequence nodes => nodes.filterMap scalarText?
  | node => node.scalarText?.toList

/-- Somewhere inside a value, at any depth, stands a node that includes files and lists a name. -/
def Includes (v : Value) (name : String) : Prop :=
  ∃ tag content, (tagged tag content).Within v ∧ Handler.ofTag? tag.text = some .inclusion ∧
    name ∈ content.listed

/-- Somewhere inside a value, at any depth, stands a node that names a variable. -/
def Consults (v : Value) (name : String) : Prop :=
  ∃ tag content, (tagged tag content).Within v ∧ Handler.ofTag? tag.text = some .environment ∧
    content.scalarText? = some name

/-- The names that nodes inside a value list. -/
def includedNames (v : Value) : List String :=
  v.nodes.flatMap fun node =>
    if Handler.ofTag? node.1.text = some .inclusion then node.2.listed else []

/-- The names of variables that nodes inside a value give. -/
def consultedNames (v : Value) : List String :=
  v.nodes.flatMap fun node =>
    if Handler.ofTag? node.1.text = some .environment then node.2.scalarText?.toList else []

/-- The names are those of a list, so what a document includes can be computed. -/
theorem mem_includedNames {v : Value} {name : String} :
    name ∈ v.includedNames ↔ v.Includes name := by
  simp only [includedNames, Includes, List.mem_flatMap, Prod.exists, mem_nodes]
  refine exists₂_congr fun tag content => and_congr_right fun _ => ?_
  split <;> simp [*]

theorem mem_consultedNames {v : Value} {name : String} :
    name ∈ v.consultedNames ↔ v.Consults name := by
  simp only [consultedNames, Consults, List.mem_flatMap, Prod.exists, mem_nodes]
  refine exists₂_congr fun tag content => and_congr_right fun _ => ?_
  split <;> simp [*]

/-- What a part of a value includes, the value includes. Contents under tags are parts, even where
resolving does not get to them. -/
theorem Includes.of_part {v part : Value} {name : String} (h : part.Includes name)
    (hpart : part ∈ v.parts) : v.Includes name := by
  obtain ⟨tag, content, hwithin, hname⟩ := h
  exact ⟨tag, content, .part hpart hwithin, hname⟩

/-- The variables of a part of a value are variables of the value. -/
theorem Consults.of_part {v part : Value} {name : String} (h : part.Consults name)
    (hpart : part ∈ v.parts) : v.Consults name := by
  obtain ⟨tag, content, hwithin, hname⟩ := h
  exact ⟨tag, content, .part hpart hwithin, hname⟩

/-- Resolving a value loads a path. -/
inductive Asks (r : Resolver) : Value → Path → Prop
  /-- A part does, and the parts before it are resolved. -/
  | part {v part : Value} {front back : List Value} {q : Path} (huntagged : v.isTagged = false)
      (hsplit : v.parts = front ++ part :: back) (hfront : ∀ x ∈ front, ∃ y, resolved r x = .ok y)
      (hq : Asks r part q) : Asks r v q
  /-- The content under a tag does. -/
  | content {tag : Tag} {content : Value} {place : Value → Value} {q : Path}
      (hdemand : r.demand tag content = .content place) (hq : Asks r content q) :
      Asks r (.tagged tag content) q
  /-- The node itself does, and the files that it lists before are loaded. -/
  | file {tag : Tag} {content : Value} {names : List String} {front back : List Path} {q : Path}
      (hdemand : r.demand tag content = .files) (hnames : content.fileNames = .ok names)
      (hsplit : names.map r.pathOf = front ++ q :: back)
      (hfront : ∀ p ∈ front, ∃ document, r.load p = .ok document) : Asks r (.tagged tag content) q

theorem listed_eq (operand : Value) :
    operand.listed = operand.naming.filterMap scalarText? := by
  cases operand with
  | sequence nodes => rfl
  | _ => simp [listed, naming, List.filterMap, scalarText?]

/-- The names of an operand that is accepted are all that it lists. For one that is not accepted,
more may be listed than are ever read. -/
theorem listed_of_fileNames_eq_ok {content : Value} {names : List String}
    (h : content.fileNames = .ok names) : content.listed = names := by
  rw [fileNames_eq_mapM, mapM_eq_ok] at h
  rw [listed_eq]
  generalize content.naming = nodes at h
  induction h with
  | nil => rfl
  | cons hnode _ ih => rw [List.filterMap_cons_some (fileName_eq_ok.mp hnode), ih]

/-- An operand that is accepted holds no tag, at any depth. Resolving does not get there, and there
is nothing for it to get to. -/
theorem not_within_of_fileNames_eq_ok {content : Value} {names : List String}
    (h : content.fileNames = .ok names) {tag : Tag} {inner : Value} :
    ¬ (tagged tag inner).Within content := by
  rw [fileNames_eq_mapM] at h
  have hscalar : ∀ node ∈ content.naming, ¬ (tagged tag inner).Within node := by
    intro node hnode
    obtain ⟨name, -, hname⟩ := exists_ok_of_mapM_eq_ok h hnode
    exact not_within_of_isScalar (isScalar_of_scalarText? (fileName_eq_ok.mp hname))
  cases content with
  | sequence nodes =>
    intro hwithin
    cases hwithin with
    | part hpart hx => exact hscalar _ hpart hx
  | _ => exact hscalar _ List.mem_cons_self

/-! ## The laws -/

variable {r r' : Resolver}

/-- What a node calls for hangs on the variable that it names, and on nothing else. In particular it
does not depend on any file. -/
theorem demand_congr {tag : Tag} {content : Value}
    (h : ∀ name, (tagged tag content).Consults name → r'.valueOf? name = r.valueOf? name) :
    r'.demand tag content = r.demand tag content := by
  have henvironment : Handler.ofTag? tag.text = some .environment →
      r'.environment tag content = r.environment tag content := by
    intro htag
    have hvalue : ∀ name, content.scalarText? = some name → r'.valueOf? name = r.valueOf? name :=
      fun name hname => h name ⟨tag, content, .self _, htag, hname⟩
    unfold Resolver.environment
    split
    · rfl
    · split
      · next name hname => rw [hvalue name hname]
      · rfl
  unfold Resolver.demand
  split
  · rfl
  · split
    · rfl
    · next htag => rw [henvironment htag]
    · rfl
    · rfl

/-- The outcome is the same for all resolvers that take names of files for the same paths and agree
on the variables that are named and on the paths asked for. Paths that are named behind a failure
need not agree. -/
theorem resolved_congr {v : Value}
    (hpath : ∀ name, v.Includes name → r'.pathOf name = r.pathOf name)
    (hvalue : ∀ name, v.Consults name → r'.valueOf? name = r.valueOf? name)
    (h : ∀ q, v.Asks r q → r'.load q = r.load q) : resolved r' v = resolved r v := by
  induction v using parts_induction with
  | step v ih =>
    have hparts : ∀ part ∈ v.parts, (∀ q, part.Asks r q → v.Asks r q) →
        resolved r' part = resolved r part := fun part hpart hasks =>
      ih part hpart (fun name hname => hpath name (hname.of_part hpart))
        (fun name hname => hvalue name (hname.of_part hpart)) fun q hq => h q (hasks q hq)
    cases htag : v.isTagged with
    | false =>
      rw [resolved_of_not_tagged htag, resolved_of_not_tagged htag]
      congr 1
      refine mapM_congr_of_reached ?_
      intro front part back hsplit hfront
      have hmem : part ∈ v.parts := hsplit ▸ List.mem_append_right front List.mem_cons_self
      exact hparts part hmem fun q hq => .part htag hsplit hfront hq
    | true =>
      cases v with
      | tagged tag content =>
        rw [resolved_tagged, resolved_tagged, demand_congr hvalue]
        cases hr : r.demand tag content with
        | content place =>
          have hcontent := hparts content List.mem_cons_self fun q hq => .content hr hq
          simp only [hcontent]
        | files =>
          refine Resolver.included_congr ?_ ?_
          · intro names hnames name hname
            have hlisted : name ∈ content.listed := listed_of_fileNames_eq_ok hnames ▸ hname
            have htag := (Resolver.demand_eq_files_iff.mp hr).2
            exact hpath name ⟨tag, content, .self _, htag, hlisted⟩
          · intro names front q back hnames hsplit hfront
            exact h q (.file hr hnames hsplit hfront)
        | nothing outcome => rfl
      | _ => cases htag

/-- What is resolved is resolved to the same by a resolver that loads, of the files that it is asked
for, those that the other one has under their names to the same documents. The paths may be
different ones, so this serves other roots. -/
theorem resolved_of_named {v u : Value} (hv : resolved r v = .ok u)
    (hvalue : ∀ name, v.Consults name → r'.valueOf? name = r.valueOf? name)
    (hload : ∀ name, v.Includes name → v.Asks r' (r'.pathOf name) →
      ∀ D, r.load (r.pathOf name) = .ok D → r'.load (r'.pathOf name) = .ok D) :
    resolved r' v = .ok u := by
  induction v using parts_induction generalizing u with
  | step v ih =>
    have hparts : ∀ part ∈ v.parts, (∀ q, part.Asks r' q → v.Asks r' q) →
        ∀ {y}, resolved r part = .ok y → resolved r' part = .ok y := fun part hpart hasks _ hy =>
      ih part hpart hy (fun name hname => hvalue name (hname.of_part hpart))
        fun name hname hq => hload name (hname.of_part hpart) (hasks _ hq)
    cases htag : v.isTagged with
    | false =>
      rw [resolved_of_not_tagged htag] at hv ⊢
      obtain ⟨us, hus, rfl⟩ := map_eq_ok.mp hv
      refine map_eq_ok.mpr ⟨us, ?_, rfl⟩
      rw [← hus]
      refine (mapM_congr_of_reached ?_).symm
      intro front part back hsplit hfront
      have hmem : part ∈ v.parts := hsplit ▸ List.mem_append_right front List.mem_cons_self
      obtain ⟨y, -, hy⟩ := exists_ok_of_mapM_eq_ok hus hmem
      rw [hy, hparts part hmem (fun q hq => .part htag hsplit hfront hq) hy]
    | true =>
      cases v with
      | tagged tag content =>
        rw [resolved_tagged] at hv ⊢
        rw [demand_congr hvalue]
        cases hr : r.demand tag content with
        | content place =>
          rw [hr] at hv
          obtain ⟨y, hy, rfl⟩ := map_eq_ok.mp hv
          have hr' : r'.demand tag content = .content place := (demand_congr hvalue).trans hr
          exact map_eq_ok.mpr
            ⟨y, hparts content List.mem_cons_self (fun q hq => .content hr' hq) hy, rfl⟩
        | files =>
          rw [hr] at hv
          have hr' : r'.demand tag content = .files := (demand_congr hvalue).trans hr
          refine Resolver.included_of_named hv fun front name back hnames hfront => ?_
          have hlisted : name ∈ content.listed := by
            rw [listed_of_fileNames_eq_ok hnames]
            exact List.mem_append_right front List.mem_cons_self
          have hpaths : (front ++ name :: back).map r'.pathOf =
              front.map r'.pathOf ++ r'.pathOf name :: back.map r'.pathOf := by
            rw [List.map_append, List.map_cons]
          exact hload name ⟨tag, content, .self _, (Resolver.demand_eq_files_iff.mp hr).2, hlisted⟩
            (.file hr' hnames hpaths hfront)
        | nothing outcome =>
          rw [hr] at hv
          exact hv
      | _ => cases htag

/-- The failure of a path asked for is the failure of the whole. All that comes before it is
resolved, by what asking means. -/
theorem resolved_eq_error_of_asks {v : Value} {q : Path} (hasks : v.Asks r q) {e : Failure}
    (hload : r.load q = .error e) : resolved r v = .error e := by
  induction hasks with
  | part huntagged hsplit hfront _ ih =>
    rw [resolved_of_not_tagged huntagged, map_eq_error]
    exact mapM_eq_error.mpr ⟨_, _, _, hsplit, hfront, ih hload⟩
  | content hdemand _ ih =>
    rw [resolved_tagged, hdemand]
    exact map_eq_error.mpr (ih hload)
  | file hdemand hnames hsplit hfront =>
    rw [resolved_tagged, hdemand]
    simp only [Resolver.included_of_fileNames hnames]
    refine bind_eq_error.mpr (.inl (mapM_eq_error.mpr ⟨_, _, _, hsplit, fun p hp => ?_, ?_⟩))
    · exact Resolver.loaded_iff_loadNamed.mpr (hfront p hp)
    · exact Resolver.loadNamed_eq_error.mpr hload

/-- Every failure is that of a path asked for, or a node inside is at fault. Together with the law
before, nothing else makes resolving fail. -/
theorem resolved_eq_error {v : Value} {e : Failure} (h : resolved r v = .error e) :
    (∃ q, v.Asks r q ∧ r.load q = .error e) ∨
      ∃ tag content, (tagged tag content).Within v ∧ r.AtFault tag content e := by
  induction v using parts_induction with
  | step v ih =>
    cases htag : v.isTagged with
    | false =>
      rw [resolved_of_not_tagged htag, map_eq_error] at h
      obtain ⟨front, part, back, hsplit, hfront, hpart⟩ := mapM_eq_error.mp h
      have hmem : part ∈ v.parts := hsplit ▸ List.mem_append_right front List.mem_cons_self
      rcases ih part hmem hpart with ⟨q, hq, hload⟩ | ⟨tag, content, hwithin, hfault⟩
      · exact .inl ⟨q, .part htag hsplit hfront hq, hload⟩
      · exact .inr ⟨tag, content, .part hmem hwithin, hfault⟩
    | true =>
      cases v with
      | tagged tag content =>
        rw [resolved_tagged] at h
        cases hr : r.demand tag content with
        | content place =>
          rw [hr] at h
          rcases ih content List.mem_cons_self (map_eq_error.mp h) with
            ⟨q, hq, hload⟩ | ⟨other, inner, hwithin, hfault⟩
          · exact .inl ⟨q, .content hr hq, hload⟩
          · exact .inr ⟨other, inner, .part List.mem_cons_self hwithin, hfault⟩
        | files =>
          rw [hr] at h
          rcases Resolver.included_eq_error (Resolver.demand_eq_files_iff.mp hr).2 h with
            hfault | ⟨names, front, q, back, hnames, hsplit, hfront, hload⟩
          · exact .inr ⟨tag, content, .self _, hfault⟩
          · exact .inl ⟨q, .file hr hnames hsplit hfront, hload⟩
        | nothing outcome =>
          rw [hr] at h
          have houtcome : outcome = .error e := h
          exact .inr ⟨tag, content, .self _, Resolver.atFault_of_demand_eq_error (houtcome ▸ hr)⟩
      | _ => cases htag

/-- No tag that has a handler consists of exclamation marks. So the check for tags that say nothing
takes no handler away. -/
theorem not_isNonSpecific_of_ofTag? {tag : Tag} {handler : Handler}
    (h : Handler.ofTag? tag.text = some handler) : tag.isNonSpecific = false := by
  have hmem : (tag.text, handler) ∈ Handler.table := by
    obtain ⟨front, back, hsplit, -⟩ := List.lookup_eq_some_iff.mp h
    exact hsplit ▸ List.mem_append_right front List.mem_cons_self
  have htable : ∀ entry ∈ Handler.table, entry.1.toList.all (· == '!') = false := by decide
  have htext : tag.text.toList = '!' :: tag.name.toList := by
    simp [Tag.text]
  have := htable _ hmem
  simpa [htext, Tag.isNonSpecific] using this

/-- A node that includes one file is resolved to the document of the file in its place. A mapping is
copied there and a scalar is refused. -/
theorem resolved_of_fileNames {tag : Tag} {operand : Value} {name : String}
    (htag : Handler.ofTag? tag.text = some .inclusion) (hnames : operand.fileNames = .ok [name]) :
    resolved r (.tagged tag operand) =
      r.load (r.pathOf name) >>= fun D => Include.joined [(r.pathOf name, D)] := by
  have hdemand : r.demand tag operand = .files :=
    Resolver.demand_eq_files_iff.mpr ⟨not_isNonSpecific_of_ofTag? htag, htag⟩
  rw [resolved_tagged, hdemand]
  show r.included operand = _
  rw [Resolver.included_of_fileNames hnames]
  show [r.pathOf name].mapM r.loadNamed >>= Include.joined = _
  rw [List.mapM_cons, List.mapM_nil, Resolver.loadNamed]
  cases r.load (r.pathOf name) <;> rfl

/-- A path that is asked for stands for a name that some node inside lists. So what is asked for is
among finitely many paths, which can be read off the document. -/
theorem Asks.includes {v : Value} {q : Path} (hasks : v.Asks r q) :
    ∃ name, v.Includes name ∧ q = r.pathOf name := by
  induction hasks with
  | @part v part front back q _ hsplit _ _ ih =>
    obtain ⟨name, hname, hq⟩ := ih
    have hmem : part ∈ v.parts := hsplit ▸ List.mem_append_right front List.mem_cons_self
    exact ⟨name, hname.of_part hmem, hq⟩
  | content _ _ ih =>
    obtain ⟨name, hname, hq⟩ := ih
    exact ⟨name, hname.of_part List.mem_cons_self, hq⟩
  | @file tag content names front back q hdemand hnames hsplit _ =>
    have hmem : q ∈ names.map r.pathOf := hsplit ▸ List.mem_append_right front List.mem_cons_self
    obtain ⟨name, hname, rfl⟩ := List.mem_map.mp hmem
    refine ⟨name, ⟨tag, content, .self _, (Resolver.demand_eq_files_iff.mp hdemand).2, ?_⟩, rfl⟩
    exact listed_of_fileNames_eq_ok hnames ▸ hname

/-- Null lists no names, and neither does anything inside it: tags may stand in front of it, but
none of them has an operand other than null. -/
theorem not_includes_of_isNull {v : Value} (h : v.isNull = true) {name : String} :
    ¬ v.Includes name := by
  rintro ⟨tag, inner, hwithin, -, hlisted⟩
  have hinner : inner.isNull = true := by
    induction hwithin with
    | self => exact h
    | @part part v hpart _ ih =>
      cases v with
      | tagged tag content => exact ih (List.mem_singleton.mp hpart ▸ h)
      | null => exact absurd hpart List.not_mem_nil
      | _ => cases h
  cases inner with
  | null | tagged => exact absurd hlisted List.not_mem_nil
  | _ => cases hinner

/-- Where a tag stands inside a part of a value that is resolved, the part is resolved as well, and
the value asks for what the part asks for. This leaves out null with several tags in front of it,
which a node for a variable takes as it is, without a look at the inner ones. -/
theorem exists_resolved_of_part {v u part : Value} (h : resolved r v = .ok u)
    (hnull : v.isNull = false) (hpart : part ∈ v.parts) {tag : Tag} {inner : Value}
    (hx : (tagged tag inner).Within part) :
    ∃ y, resolved r part = .ok y ∧ ∀ q, part.Asks r q → v.Asks r q := by
  cases hv : v.isTagged with
  | false =>
    rw [resolved_of_not_tagged hv] at h
    obtain ⟨us, hparts, -⟩ := map_eq_ok.mp h
    obtain ⟨front, back, hsplit⟩ := List.append_of_mem hpart
    obtain ⟨y, -, hy⟩ := exists_ok_of_mapM_eq_ok hparts hpart
    refine ⟨y, hy, fun q hq => .part hv hsplit ?_ hq⟩
    intro x hx
    obtain ⟨z, -, hz⟩ := exists_ok_of_mapM_eq_ok hparts (hsplit ▸ List.mem_append_left _ hx)
    exact ⟨z, hz⟩
  | true =>
    cases v with
    | tagged outer content =>
      rw [List.mem_singleton.mp hpart] at hx ⊢
      rw [resolved_tagged] at h
      cases hdemand : r.demand outer content with
      | content place =>
        rw [hdemand] at h
        obtain ⟨y, hy, -⟩ := map_eq_ok.mp h
        exact ⟨y, hy, fun q hq => .content hdemand hq⟩
      | files =>
        rw [hdemand] at h
        obtain ⟨names, hnames, -⟩ := bind_eq_ok.mp h
        exact absurd hx (not_within_of_fileNames_eq_ok hnames)
      | nothing outcome =>
        rw [hdemand] at h
        have houtcome : outcome = .ok u := h
        rcases Resolver.isScalar_of_demand_eq_ok (houtcome ▸ hdemand) with hscalar | ⟨-, hcontent⟩
        · exact absurd hx (not_within_of_isScalar hscalar)
        · exact Bool.noConfusion (hcontent.symm.trans hnull)
    | _ => cases hv

/-- Every node with a tag inside a value that is resolved is resolved, as long as no tag stands
directly on another one. Operands are no exception, for what is accepted there holds no tag. -/
theorem exists_resolved_of_within {v u : Value} (h : resolved r v = .ok u) (honce : v.TaggedOnce)
    {tag : Tag} {content : Value} (hwithin : (tagged tag content).Within v) :
    ∃ y, resolved r (.tagged tag content) = .ok y := by
  induction hwithin generalizing u with
  | self => exact ⟨u, h⟩
  | part hpart hx ih =>
    have hnull := honce.isNull_of_within_part hpart hx
    obtain ⟨y, hy, -⟩ := exists_resolved_of_part h hnull hpart hx
    exact ih hy (honce.of_part hpart)

/-- A value that is resolved asks for all files that the nodes inside it list. The order in which it
asks does not matter for this. -/
theorem asks_of_resolved_eq_ok {v u : Value} (h : resolved r v = .ok u) {name : String}
    (hname : v.Includes name) : v.Asks r (r.pathOf name) := by
  obtain ⟨tag, inner, hwithin, htag, hlisted⟩ := hname
  induction hwithin generalizing u with
  | self =>
    have hdemand : r.demand tag inner = .files :=
      Resolver.demand_eq_files_iff.mpr ⟨not_isNonSpecific_of_ofTag? htag, htag⟩
    rw [resolved_tagged, hdemand] at h
    obtain ⟨names, hnames, h⟩ := bind_eq_ok.mp h
    obtain ⟨documents, hloads, -⟩ := bind_eq_ok.mp h
    obtain ⟨front, back, hsplit⟩ := List.append_of_mem (listed_of_fileNames_eq_ok hnames ▸ hlisted)
    have hpaths : names.map r.pathOf =
        front.map r.pathOf ++ r.pathOf name :: back.map r.pathOf := by
      rw [hsplit, List.map_append, List.map_cons]
    refine .file hdemand hnames hpaths fun p hp => Resolver.loaded_iff_loadNamed.mp ?_
    obtain ⟨document, -, hdocument⟩ :=
      exists_ok_of_mapM_eq_ok hloads (hpaths ▸ List.mem_append_left _ hp)
    exact ⟨document, hdocument⟩
  | @part part v hpart hx ih =>
    have hnull : v.isNull = false := by
      by_contra hnull
      exact not_includes_of_isNull (Bool.not_eq_false _ ▸ hnull)
        ⟨tag, inner, .part hpart hx, htag, hlisted⟩
    obtain ⟨y, hy, hasks⟩ := exists_resolved_of_part h hnull hpart hx
    exact hasks _ (ih hy)

/-- A value that is resolved has the documents of all files that the nodes inside it list. So no
inclusion is passed over in a document that comes out. -/
theorem exists_load_of_resolved_eq_ok {v u : Value} (h : resolved r v = .ok u) {name : String}
    (hname : v.Includes name) : ∃ document, r.load (r.pathOf name) = .ok document := by
  cases hload : r.load (r.pathOf name) with
  | ok document => exact ⟨document, rfl⟩
  | error e =>
    rw [resolved_eq_error_of_asks (asks_of_resolved_eq_ok h hname) hload] at h
    cases h

end Value

/-! ## Loading more -/

namespace Resolver

/-- A resolver loads all that another one loads, and does not differ from it otherwise. -/
structure Extends (r' r : Resolver) : Prop where
  root : r'.root = r.root
  valueOf? : r'.valueOf? = r.valueOf?
  load : ∀ q document, r.load q = .ok document → r'.load q = .ok document

namespace Extends

variable {r r' : Resolver}

/-- What is resolved stays as it is when more is loaded. -/
theorem resolved (h : r'.Extends r) {v u : Value} (hv : v.resolved r = .ok u) :
    v.resolved r' = .ok u := by
  refine Value.resolved_of_named hv (fun _ _ => by rw [h.valueOf?]) ?_
  intro name _ _ document hdocument
  rw [pathOf, h.root]
  exact h.load _ document hdocument

/-- A node at fault stays at fault when more is loaded. In particular, documents that could not be
put together are still the same. -/
theorem atFault (h : r'.Extends r) {tag : Tag} {content : Value} {e : Failure}
    (hfault : r.AtFault tag content e) : r'.AtFault tag content e := by
  cases hfault with
  | unknownTag hspecific htag => exact .unknownTag hspecific htag
  | malformedTag htag hcontent => exact .malformedTag htag hcontent
  | wrongOperand htag hnull hcontent => exact .wrongOperand htag hnull hcontent
  | wrongFileName htag hnode hname => exact .wrongFileName htag hnode hname
  | documents htag hnames hdocuments hjoined =>
    refine .documents htag hnames ?_ hjoined
    have hpath : r'.pathOf = r.pathOf := by
      funext name
      simp only [pathOf, h.root]
    rw [hpath, mapM_eq_ok]
    refine (mapM_eq_ok.mp hdocuments).imp fun q document hq => ?_
    obtain ⟨v, hv, rfl⟩ := loadNamed_eq_ok.mp hq
    exact loadNamed_eq_ok.mpr ⟨v, h.load q v hv, rfl⟩

end Extends

end Resolver

end YamlWeave
