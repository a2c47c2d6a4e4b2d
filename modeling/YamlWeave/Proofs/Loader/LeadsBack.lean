import YamlWeave.World.Host
import YamlWeave.Proofs.Loader.Termination
import YamlWeave.Proofs.World.Spelling

/-!
# Files that include themselves

The names in a file start from the directory of its path, however the path is spelled. So the last
name of the path leads back to the file, over links as well: as seen from the directory it has the
components of the path and the same canonical path. A file whose only tag includes this name fails
for a cycle (`directory_leads_back`).

That the disk is well-formed is needed: where something stood inside a file, two dots would lead to
the file, and they are no name in its directory.
-/

set_option autoImplicit false

namespace YamlWeave

namespace Value

variable {r : Resolver} {v : Value} {name : String}

/-- The only node with a tag inside a value includes the file of this name. -/
def OnlyIncludes (v : Value) (name : String) : Prop :=
  ∃ tag, Handler.ofTag? tag.text = some .inclusion ∧ v.nodes = [(tag, .string name)]

namespace OnlyIncludes

/-- The node is the only one with a tag, so what stands inside with a tag is this node. -/
theorem within_iff (h : v.OnlyIncludes name) : ∃ tag, Handler.ofTag? tag.text = some .inclusion ∧
    ∀ other content, (tagged other content).Within v ↔ other = tag ∧ content = .string name := by
  obtain ⟨tag, htag, hnodes⟩ := h
  refine ⟨tag, htag, fun other content => ?_⟩
  rw [← mem_nodes, hnodes, List.mem_singleton, Prod.mk.injEq]

theorem includes_iff (h : v.OnlyIncludes name) {other : String} :
    v.Includes other ↔ other = name := by
  obtain ⟨tag, htag, hwithin⟩ := h.within_iff
  constructor
  · rintro ⟨tag', content, hnode, -, hlisted⟩
    obtain ⟨-, rfl⟩ := (hwithin tag' content).mp hnode
    exact List.mem_singleton.mp hlisted
  · rintro rfl
    exact ⟨tag, _, (hwithin _ _).mpr ⟨rfl, rfl⟩, htag, List.mem_singleton_self _⟩

/-- The node is not at fault itself when its file fails. So the failure of the file cannot be hidden
behind one of the node. -/
theorem not_atFault (h : v.OnlyIncludes name) {tag : Tag} {content : Value} {e e' : Failure}
    (hnode : (tagged tag content).Within v) (hload : r.load (r.pathOf name) = .error e) :
    ¬ r.AtFault tag content e' := by
  obtain ⟨tag', htag', hwithin⟩ := h.within_iff
  obtain ⟨rfl, rfl⟩ := (hwithin tag content).mp hnode
  intro hfault
  cases hfault with
  | unknownTag _ htag => cases htag'.symm.trans htag
  | malformedTag htag => cases htag'.symm.trans htag
  | wrongOperand htag => cases htag'.symm.trans htag
  | wrongFileName _ hnamed hname =>
    rcases hnamed with rfl | hpart
    · cases hname
    · exact absurd hpart List.not_mem_nil
  | documents _ hnames hdocuments _ =>
    cases hnames
    obtain ⟨document, -, hdocument⟩ :=
      exists_ok_of_mapM_eq_ok hdocuments (List.mem_singleton_self _)
    rw [Resolver.loadNamed, hload] at hdocument
    cases hdocument

/-- The failure of the file is the failure of the value. There is no other node that could fail
first. -/
theorem resolved_eq_error (h : v.OnlyIncludes name) {e : Failure}
    (hload : r.load (r.pathOf name) = .error e) : v.resolved r = .error e := by
  cases hresolved : v.resolved r with
  | ok u =>
    obtain ⟨document, hdocument⟩ :=
      exists_load_of_resolved_eq_ok hresolved (h.includes_iff.mpr rfl)
    cases hload.symm.trans hdocument
  | error e' =>
    rcases Value.resolved_eq_error hresolved with ⟨q, hasks, hq⟩ | ⟨tag, content, hnode, hfault⟩
    · obtain ⟨other, hother, rfl⟩ := hasks.includes
      rw [h.includes_iff.mp hother, hload] at hq
      rw [Except.error.inj hq]
    · exact absurd hfault (h.not_atFault hnode hload)

end OnlyIncludes

end Value

/-- A file whose only tag includes a path that is recognised as the file fails for a cycle. The
world is any world here. What the disk has to give is the equality of the two keys alone. -/
theorem load_circular_of_key {w : World} {p : Path} {text name : String} {v : Value}
    (hread : w.read p = .ok text) (hvalue : Document.value? text = some v)
    (honly : v.OnlyIncludes name) (hkey : w.key (p.directory / ⟨name⟩) = w.key p) :
    load w .standard (.file p) = .error (.circularInclude (p.directory / ⟨name⟩)) := by
  have hinside : ((Loader.new .standard (.file p)).enter (w.key p)).included w
      (p.directory / ⟨name⟩) = .error (.circularInclude (p.directory / ⟨name⟩)) := by
    rw [Loader.included, Loader.loadFile_of_isOpen]
    rw [hkey]
    simp [Loader.isOpen, Loader.enter, Loader.forInclude, Path.sameAs]
  show ((Loader.new .standard (.file p)).loadFile w p).1 = _
  rw [Loader.loadFile_of_read rfl hread, Loader.compose_of_value? hvalue,
    honly.resolved_eq_error hinside]
  rfl

/-- **The directory of a file leads back to the file.** A path that can be read, however it is
spelled, ends in a name that is not two dots. The directory that a load of the path starts from is
the one that an inclusion of the path starts from, and the name as seen from there has the
components of the path and leads to the same file. So where the only tag in the file includes this
name, the load fails for a cycle at the joined path. -/
theorem directory_leads_back {host : Host} (hd : host.disk.WellFormed) {p : Path} {text : String}
    (hread : host.world.read p = .ok text) : ∃ name root,
      p.components.getLast? = some (.name name) ∧ name ≠ ".." ∧
      (∀ mergeKeys, (Options.mk none mergeKeys).rootFor (.file p) = root) ∧
      (∀ l : Loader, (l.forInclude p).root = root) ∧
      (root / Path.mk name).components = p.components ∧
      (∃ file, host.world.canonical? p = some file ∧
        host.world.canonical? (root / Path.mk name) = some file) ∧
      ∀ v, Document.value? text = some v → v.OnlyIncludes name →
        load host.world .standard (.file p) =
          .error (.circularInclude (root / Path.mk name)) := by
  obtain ⟨-, place, content, hfollow, hitem, -⟩ := Disk.read_eq_ok.mp hread
  obtain ⟨name, hname, hup⟩ :=
    hd.exists_endsIn_of_follow hfollow (Disk.isDirectory_of_item? hitem)
  have hcanonical : host.world.canonical? (p.directory / Path.mk name) =
      host.world.canonical? p :=
    Disk.canonical?_eq_of_names hname hname.endsIn_join hname.isAbsolute_join hname.names_join
  have hfile : host.world.canonical? p = some (Disk.pathOf place) :=
    Disk.canonical?_eq_some.mpr ⟨place, hfollow, rfl⟩
  refine ⟨name, p.directory, hname.getLast?_components, hup, fun _ => rfl, fun _ => rfl,
    hname.components_join, ⟨_, hfile, hcanonical.trans hfile⟩, fun v hvalue honly => ?_⟩
  refine load_circular_of_key hread hvalue honly ?_
  rw [World.key, World.key, hcanonical, hfile]
  rfl

/-- A file in a directory that has a link to it. The file includes itself. -/
def Host.detour : Host where
  disk := ⟨[(["d"], .directory), (["d", "f"], .file "k: !include f".toUTF8), (["l"], .link ⟨"d"⟩)],
    []⟩
  bindings := []

/-- Over the link and with a dot on the way, the load fails for a cycle at the path that the root of
the file and its name make, which is another spelling of the file that was asked for. -/
theorem directory_leads_back_over_link :
    load Host.detour.world .standard (.file ⟨"l//./f"⟩) = .error (.circularInclude ⟨"l/f"⟩) := by
  have hd : Host.detour.disk.WellFormed := by decide +kernel
  have hread : Host.detour.world.read ⟨"l//./f"⟩ = .ok "k: !include f" := by decide +kernel
  have hvalue : Document.value? "k: !include f" =
      some (.mapping [(.string "k", .tagged ⟨"include"⟩ (.string "f"))]) := by decide +kernel
  obtain ⟨name, root, hlast, -, hroot, -, -, -, hload⟩ := directory_leads_back hd hread
  have hname : name = "f" := by
    have hcomponents : (Path.mk "l//./f").components.getLast? = some (.name "f") := by
      decide +kernel
    cases hcomponents.symm.trans hlast
    rfl
  have hpath : root / Path.mk name = ⟨"l/f"⟩ := by
    rw [← hroot true, hname]
    decide +kernel
  rw [hload _ hvalue (hname ▸ ⟨⟨"include"⟩, rfl, rfl⟩), hpath]

end YamlWeave
