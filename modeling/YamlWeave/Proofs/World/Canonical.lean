import YamlWeave.Proofs.World.Walk

/-!
# What canonical paths are taken for

On a disk as a system keeps it (`Disk.WellFormed`), links and all, what a path finds is listed under
proper names (`isName_of_follow`). So canonical paths of different places differ in their names, and
an absolute path with the names of a file leads to this file, unless something stands behind the
last name: then it leads nowhere, since a file holds nothing (`follow_of_names`).

Files are recognised by their canonical paths, and a path that has none by its spelling. Spellings
are compared by components, for which a slash or a dot behind the last name does not count. So there
are two kinds of paths that cannot be read and are still recognised as a file (`Disk.Mistaken`), and
no others (`sameAs_key_iff`).
-/

set_option autoImplicit false

namespace YamlWeave.Disk

variable {d : Disk} {follow : Location → List String → Except ReadFault Destination}
  {location place : Location} {segments names : List String} {item : Item} {p file : Path}
  {content : ByteArray} {links : Nat}

/-! ## Well-formed disks -/

/-- A name that something on a disk can have. -/
structure IsName (name : String) : Prop where
  counts : Path.counts name = true
  notUp : name ≠ ".."
  noSlash : '/' ∉ name.toList
  noZero : '\x00' ∉ name.toList
  short : name.utf8ByteSize ≤ nameLimit

instance (name : String) : Decidable (IsName name) :=
  decidable_of_iff (Path.counts name = true ∧ name ≠ ".." ∧ '/' ∉ name.toList ∧
      '\x00' ∉ name.toList ∧ name.utf8ByteSize ≤ nameLimit)
    ⟨fun ⟨hcounts, hup, hslash, hzero, hshort⟩ => ⟨hcounts, hup, hslash, hzero, hshort⟩,
      fun h => ⟨h.counts, h.notUp, h.noSlash, h.noZero, h.short⟩⟩

/-- A disk as a system keeps it: everything has proper names and stands in a directory. -/
structure WellFormed (d : Disk) : Prop where
  isName : ∀ entry ∈ d.items, ∀ name ∈ entry.1, IsName name
  parent : ∀ entry ∈ d.items, d.isDirectory entry.1.dropLast = true

instance (d : Disk) : Decidable d.WellFormed :=
  decidable_of_iff ((∀ entry ∈ d.items, ∀ name ∈ entry.1, IsName name) ∧
      ∀ entry ∈ d.items, d.isDirectory entry.1.dropLast = true)
    ⟨fun h => ⟨h.1, h.2⟩, fun h => ⟨h.isName, h.parent⟩⟩

theorem item?_of_isDirectory (h : d.isDirectory location = true) :
    d.item? location = some .directory := by
  unfold isDirectory at h
  split at h
  · assumption
  · cases h

/-- What is at a location is the root directory or listed. -/
theorem mem_items_of_item? (h : d.item? location = some item) :
    location = [] ∨ (location, item) ∈ d.items := by
  unfold item? at h
  split at h
  · next hroot => exact .inl (List.isEmpty_iff.mp hroot)
  · obtain ⟨front, back, hitems, -⟩ := List.lookup_eq_some_iff.mp h
    exact .inr (hitems ▸ List.mem_append_right front List.mem_cons_self)

namespace WellFormed

theorem isName_of_item? (hd : d.WellFormed) (h : d.item? location = some item) :
    ∀ name ∈ location, IsName name := by
  rcases mem_items_of_item? h with rfl | hmem
  · exact fun _ => nofun
  · exact hd.isName _ hmem

/-- Everything stands in a directory, the root directory in itself. -/
theorem isDirectory_dropLast (hd : d.WellFormed) (h : d.item? location = some item) :
    d.isDirectory location.dropLast = true := by
  rcases mem_items_of_item? h with rfl | hmem
  · rfl
  · exact hd.parent _ hmem

/-- Everything on the way to something is a directory. A walk by proper names is never stopped
before it arrives. -/
theorem isDirectory_of_append (hd : d.WellFormed) {rest : List String} (hrest : rest ≠ [])
    (h : d.item? (location ++ rest) = some item) : d.isDirectory location = true := by
  induction rest using List.reverseRecOn generalizing item with
  | nil => exact absurd rfl hrest
  | append_singleton rest name ih =>
    have hparent := hd.isDirectory_dropLast h
    rw [← List.append_assoc, List.dropLast_concat] at hparent
    cases rest with
    | nil => rwa [List.append_nil] at hparent
    | cons => exact ih (List.cons_ne_nil _ _) (item?_of_isDirectory hparent)

/-! ## What walks find -/

/-- A walk finds something, where what follows links does. Free names are reported apart from what
is found, so nothing is found that is not there. -/
theorem exists_item_of_walkWith (hd : d.WellFormed)
    (hfollow : ∀ {location segments place}, (∃ item, d.item? location = some item) →
      follow location segments = .ok (.found place) → ∃ item, d.item? place = some item)
    (hlocation : ∃ item, d.item? location = some item)
    (h : d.walkWith follow location segments = .ok (.found place)) :
    ∃ item, d.item? place = some item := by
  fun_induction d.walkWith follow location segments with
  | case1 =>
    cases h
    exact hlocation
  -- The segment does not count.
  | case3 location segment rest _ _ ih => exact ih hlocation h
  -- The segment leads up.
  | case4 location segment rest _ _ _ ih =>
    obtain ⟨item, hitem⟩ := hlocation
    exact ih ⟨_, item?_of_isDirectory (hd.isDirectory_dropLast hitem)⟩ h
  -- The segment is a link.
  | case8 => exact hfollow ⟨_, rfl⟩ h
  | case9 => exact hfollow hlocation h
  -- The segment is a file or a directory.
  | case10 location segment rest _ _ _ _ next item _ hitem ih => exact ih ⟨item, hitem⟩ h
  -- The walk finds nothing.
  | _ => cases h

/-- A walk through a number of links that starts where something is ends where something is. Behind
a link one link less may be followed, which the induction is on. -/
theorem exists_item_of_walk (hd : d.WellFormed) (hlocation : ∃ item, d.item? location = some item)
    (h : d.walk links location segments = .ok (.found place)) :
    ∃ item, d.item? place = some item := by
  induction links generalizing location segments place with
  | zero => exact hd.exists_item_of_walkWith (fun _ hlink => by cases hlink) hlocation h
  | succ links ih => exact hd.exists_item_of_walkWith ih hlocation h

end WellFormed

/-- What a path finds has proper names, however the path was spelled and whatever links were on the
way. -/
theorem WellFormed.isName_of_follow (hd : d.WellFormed) (h : d.follow p = .ok (.found place)) :
    ∀ name ∈ place, IsName name := by
  have horigin := item?_of_isDirectory (isDirectory_origin h)
  obtain ⟨item, hitem⟩ := hd.exists_item_of_walk ⟨_, horigin⟩ (follow_eq_ok.mp h).2.2
  exact hd.isName_of_item? hitem

/-! ## Canonical paths -/

/-- The segments of a canonical path are the names of its place, behind an empty one. -/
theorem segments_pathOf (hplace : ∀ name ∈ place, IsName name) (hne : place ≠ []) :
    (pathOf place).segments = "" :: place := by
  have hroot : place.isEmpty = false := by simpa using hne
  rw [pathOf, hroot]
  refine Path.segments_ofSegments (List.cons_ne_nil _ _) ?_
  intro segment hsegment
  rcases List.mem_cons.mp hsegment with rfl | hsegment
  · exact List.not_mem_nil
  · exact (hplace segment hsegment).noSlash

/-- A canonical path is absolute and has the names of its place. The names have to be proper: a dot
among them would not be a component. -/
theorem components_pathOf (hplace : ∀ name ∈ place, IsName name) :
    (pathOf place).components = .root :: place.map .name := by
  rw [Path.components_eq_root_iff]
  cases hne : place with
  | nil => exact ⟨rfl, rfl⟩
  | cons name rest =>
    rw [← hne]
    have hsegments := segments_pathOf hplace (by simp [hne])
    have hnames : place.filter Path.counts = place :=
      List.filter_eq_self.mpr fun name hname => (hplace name hname).counts
    constructor
    · by_contra hrelative
      have hnil := Path.eq_nil_of_segments_eq hsegments (Bool.eq_false_iff.mpr hrelative)
      simp [hne] at hnil
    · rw [Path.names, hsegments]
      exact hnames

theorem names_pathOf (hplace : ∀ name ∈ place, IsName name) : (pathOf place).names = place :=
  (Path.components_eq_root_iff.mp (components_pathOf hplace)).2

/-- A path is the same as a canonical path when it is absolute and has the same names. Slashes and
dots do not count in this, which is how a path that leads nowhere can be taken for a file. -/
theorem pathOf_sameAs_iff (hplace : ∀ name ∈ place, IsName name) :
    (pathOf place).sameAs p = true ↔ p.isAbsolute = true ∧ p.names = place := by
  rw [Path.sameAs, beq_iff_eq, components_pathOf hplace, eq_comm, Path.components_eq_root_iff]

/-! ## Paths with the names of a file -/

/-- Only the last segment decides whether segments end in a name. -/
theorem any_getLast?_cons {segment : String} {rest : List String} (hrest : rest ≠ []) :
    (segment :: rest).getLast?.any Path.counts = rest.getLast?.any Path.counts := by
  obtain ⟨other, rest, rfl⟩ := List.exists_cons_of_ne_nil hrest
  rw [List.getLast?_cons_cons]

theorem any_getLast?_of_filter_eq_nil {rest : List String} (h : rest.filter Path.counts = []) :
    rest.getLast?.any Path.counts = false := by
  rw [Option.any_eq_false]
  intro last hlast
  exact Bool.eq_false_iff.mpr (List.filter_eq_nil_iff.mp h last (List.mem_of_getLast? hlast))

/-- Nothing is behind a file, not even what a segment that does not count would leave in place. -/
theorem walkWith_behind_file (hitem : d.item? place = some (.file content)) :
    d.walkWith follow place segments =
      if segments = [] then .ok (.found place) else .error .notADirectory := by
  cases segments with
  | nil => rfl
  | cons segment rest =>
    rw [walkWith_of_not_directory (isDirectory_of_item? hitem) (List.cons_ne_nil _ _)]
    rfl

/-- Segments with the names that lead to a file lead to the file, or nowhere when something stands
behind the last name. Segments in the middle that do not count make no difference. -/
theorem WellFormed.walkWith_of_names (hd : d.WellFormed)
    (hitem : d.item? (place ++ names) = some (.file content))
    (hnames : ∀ name ∈ names, IsName name) (hplace : d.isDirectory place = true)
    (hsegments : segments.filter Path.counts = names) :
    d.walkWith follow place segments =
      if segments.getLast?.any Path.counts then .ok (.found (place ++ names))
      else .error .notADirectory := by
  induction segments generalizing place names with
  | nil =>
    subst hsegments
    rw [List.filter_nil, List.append_nil] at hitem
    rw [isDirectory_of_item? hitem] at hplace
    cases hplace
  | cons segment rest ih =>
    cases hcounts : Path.counts segment with
    | false =>
      rw [List.filter_cons_of_neg (by simp [hcounts])] at hsegments
      have hplace' := item?_of_isDirectory hplace
      rw [walkWith_of_step_of_not_link (.stay hplace hcounts) (by simp [hplace']),
        ih hitem hnames hplace hsegments]
      by_cases hrest : rest = []
      · subst hrest
        simp [hcounts]
      · rw [any_getLast?_cons hrest]
    | true =>
      rw [List.filter_cons_of_pos hcounts] at hsegments
      subst hsegments
      have hname := hnames segment List.mem_cons_self
      rw [List.append_cons] at hitem
      have hdown : ∀ {item}, d.item? (place ++ [segment]) = some item →
          d.Step place segment (place ++ [segment]) :=
        fun hitem => .down hplace hcounts hname.notUp hname.short hitem
      by_cases hlater : rest.filter Path.counts = []
      · -- This is the last name.
        rw [hlater, List.append_nil] at hitem
        rw [walkWith_of_step_of_not_link (hdown hitem) (by simp [hitem]),
          walkWith_behind_file hitem, hlater]
        by_cases hrest : rest = []
        · subst hrest
          simp [hcounts]
        · rw [any_getLast?_cons hrest, any_getLast?_of_filter_eq_nil hlater, if_neg hrest]
          rfl
      · have hnext := hd.isDirectory_of_append hlater hitem
        have hnext' := item?_of_isDirectory hnext
        rw [walkWith_of_step_of_not_link (hdown hnext') (by simp [hnext']),
          ih hitem (fun name hmem => hnames name (List.mem_cons_of_mem _ hmem)) hnext rfl,
          ← List.append_cons, any_getLast?_cons]
        rintro rfl
        exact hlater rfl

/-- A path has no zero in it when no name has. The other segments hold dots at most. -/
theorem zero_not_mem_of_names (h : ∀ name ∈ p.names, IsName name) : '\x00' ∉ p.text.toList := by
  intro hmem
  obtain ⟨name, hname, hzero⟩ := (Path.mem_text_iff (by decide) (by decide)).mp hmem
  exact (h name hname).noZero hzero

/-- An absolute path with the names of a file leads to the file, or nowhere when it does not end in
a name. There are no links on the way, as everything above the file is a directory. -/
theorem WellFormed.follow_of_names (hd : d.WellFormed)
    (hitem : d.item? place = some (.file content)) (habsolute : p.isAbsolute = true)
    (hnames : p.names = place) :
    d.follow p = if p.endsInName then .ok (.found place) else .error .notADirectory := by
  have hplace := hd.isName_of_item? hitem
  have hne : p ≠ .empty := by
    rintro rfl
    cases habsolute
  have hzero : '\x00' ∉ p.text.toList := zero_not_mem_of_names (hnames ▸ hplace)
  have hend : p.endsInName = p.steps.getLast?.any Path.counts := by
    rw [Path.endsInName, p.getLast?_steps]
  rw [follow_eq hne, if_neg hzero, origin, habsolute, hend]
  exact hd.walkWith_of_names hitem hplace rfl (p.filter_steps.trans hnames)

/-! ## Paths that are recognised as a file and cannot be read -/

/-- How a path that cannot be read may be recognised as a file all the same. -/
inductive Mistaken (d : Disk) (p file : Path) : Prop
  /-- The path has the names of the file, and a slash or a dot stands behind the last one. -/
  | behind (habsolute : p.isAbsolute = true) (hnames : p.names = file.names)
      (hend : p.endsInName = false)
  /-- The path leads to the file, but is too long to be read. -/
  | long (hcanonical : d.canonical? p = some file) (hlong : pathLimit < p.text.utf8ByteSize)

/-- A path that is relative or ends in a name is not mistaken for a file, as long as it is not too
long. -/
theorem not_mistaken (hend : p.isAbsolute = false ∨ p.endsInName = true)
    (hlimit : p.text.utf8ByteSize ≤ pathLimit) : ¬ d.Mistaken p file := by
  rintro (⟨habsolute, -, hidle⟩ | ⟨-, hlong⟩)
  · rcases hend with hrelative | hend
    · exact Bool.false_ne_true (hrelative.symm.trans habsolute)
    · exact Bool.false_ne_true (hidle.symm.trans hend)
  · exact absurd hlong (Nat.not_lt.mpr hlimit)

theorem canonical?_eq_some {file : Path} : d.canonical? p = some file ↔
    ∃ place, d.follow p = .ok (.found place) ∧ file = pathOf place := by
  unfold canonical?
  split
  · next place hfollow => simp [hfollow, eq_comm]
  · next hother =>
    refine iff_of_false nofun ?_
    rintro ⟨place, hfollow, -⟩
    exact hother place hfollow

/-- A file that is read by some path is at a place of its own, and its canonical path is made of
this place. -/
theorem exists_place_of_read {text : String} (hread : d.read p = .ok text)
    (hcanonical : d.canonical? p = some file) : ∃ place content,
      file = pathOf place ∧ d.item? place = some (.file content) ∧ text? content = some text := by
  obtain ⟨-, place, content, hfollow, hitem, htext⟩ := read_eq_ok.mp hread
  obtain ⟨other, hother, rfl⟩ := canonical?_eq_some.mp hcanonical
  cases hfollow.symm.trans hother
  exact ⟨place, content, rfl, hitem, htext⟩

/-- Of the paths that cannot be read, those that are mistaken for a file are recognised as it. A
path without a canonical path stands for itself, and this is where the mistake comes from. -/
theorem WellFormed.sameAs_key_iff (hd : d.WellFormed)
    (hitem : d.item? place = some (.file content)) {text : String}
    (htext : text? content = some text) {fault : ReadFault} (hrefused : d.read p = .error fault) :
    (pathOf place).sameAs ((d.canonical? p).getD p) = true ↔ d.Mistaken p (pathOf place) := by
  have hplace := hd.isName_of_item? hitem
  have hnames := names_pathOf hplace
  constructor
  · intro hsame
    cases hkey : d.canonical? p with
    | some key =>
      obtain ⟨other, hfollow, rfl⟩ := canonical?_eq_some.mp hkey
      rw [hkey, Option.getD_some, pathOf_sameAs_iff hplace,
        names_pathOf (hd.isName_of_follow hfollow)] at hsame
      obtain ⟨-, rfl⟩ := hsame
      refine .long hkey (Nat.lt_of_not_le fun hlimit => ?_)
      rw [read_eq_ok.mpr ⟨hlimit, other, content, hfollow, hitem, htext⟩] at hrefused
      cases hrefused
    | none =>
      rw [hkey, Option.getD_none, pathOf_sameAs_iff hplace] at hsame
      refine .behind hsame.1 (hsame.2.trans hnames.symm) ?_
      by_contra hend
      have hfollow := hd.follow_of_names hitem hsame.1 hsame.2
      rw [if_pos (Bool.not_eq_false _ ▸ hend)] at hfollow
      rw [canonical?_eq_some.mpr ⟨place, hfollow, rfl⟩] at hkey
      cases hkey
  · rintro (⟨habsolute, hp, hend⟩ | ⟨hkey, -⟩)
    · rw [hnames] at hp
      have hfollow := hd.follow_of_names hitem habsolute hp
      have hnone : d.canonical? p = none := by
        rw [canonical?, hfollow, hend]
        rfl
      rw [hnone, Option.getD_none, pathOf_sameAs_iff hplace]
      exact ⟨habsolute, hp⟩
    · rw [hkey, Option.getD_some, pathOf_sameAs_iff hplace]
      exact ⟨(Path.components_eq_root_iff.mp (components_pathOf hplace)).1, hnames⟩

/-- A path with a zero in it leads nowhere, so it has no canonical path. -/
theorem zero_not_mem_of_canonical? (h : d.canonical? p = some file) : '\x00' ∉ p.text.toList := by
  obtain ⟨place, hfollow, -⟩ := canonical?_eq_some.mp h
  exact (follow_eq_ok.mp hfollow).2.1

theorem read_of_too_long (hzero : '\x00' ∉ p.text.toList)
    (hlong : pathLimit < p.text.utf8ByteSize) : d.read p = .error .nameTooLong := by
  simp [Disk.read, hzero, hlong]

theorem read_of_follow_error {fault : ReadFault} (hzero : '\x00' ∉ p.text.toList)
    (hlimit : p.text.utf8ByteSize ≤ pathLimit) (h : d.follow p = .error fault) :
    d.read p = .error fault := by
  simp [Disk.read, hzero, Nat.not_lt.mpr hlimit, h, bind, Except.bind]

/-- A path is mistaken for a file only where it is too long or goes on behind the file. In
particular nothing that is missing is mistaken for a file. -/
theorem WellFormed.fault_of_mistaken (hd : d.WellFormed)
    (hitem : d.item? place = some (.file content)) (h : d.Mistaken p (pathOf place))
    {fault : ReadFault} (hrefused : d.read p = .error fault) :
    fault = .notADirectory ∨ fault = .nameTooLong := by
  cases h with
  | behind habsolute hnames hend =>
    have hplace := hd.isName_of_item? hitem
    rw [names_pathOf hplace] at hnames
    have hzero := zero_not_mem_of_names (hnames ▸ hplace)
    have hfollow := hd.follow_of_names hitem habsolute hnames
    rw [hend, if_neg Bool.false_ne_true] at hfollow
    rcases Nat.lt_or_ge pathLimit p.text.utf8ByteSize with hlong | hlimit
    · rw [read_of_too_long hzero hlong] at hrefused
      cases hrefused
      exact .inr rfl
    · rw [read_of_follow_error hzero hlimit hfollow] at hrefused
      cases hrefused
      exact .inl rfl
  | long hcanonical hlong =>
    rw [read_of_too_long (zero_not_mem_of_canonical? hcanonical) hlong] at hrefused
    cases hrefused
    exact .inr rfl

end YamlWeave.Disk
