import YamlWeave.Proofs.Loader.Named
import YamlWeave.Proofs.World.Walk

/-!
# The spelling of paths does not matter

On a disk without links, a load has the same documents however its root and the path of its source
are spelled (`load_eq_ok_iff_of_alike`). The paths of two such loads differ all the way down,
because each is made from the one before; what stays the same is where they lead. Loaders whose
roots lead to one directory find every name at the same file, that file is recognised by the same
canonical path, and the loaders inside it are alike again (`Alike.inside`).
-/

set_option autoImplicit false

namespace YamlWeave

namespace Disk

variable {d : Disk} {p p' q dir dir' : Path} {location file : Location} {content : ByteArray}
  {text : String}

/-- Both paths lead to one file. -/
def SameFile (d : Disk) (p p' : Path) : Prop :=
  ∃ file content, d.item? file = some (.file content) ∧ d.follow p = .ok (.found file) ∧
    d.follow p' = .ok (.found file)

namespace SameFile

/-- Which path comes first does not matter. -/
theorem symm (h : d.SameFile p p') : d.SameFile p' p := by
  obtain ⟨file, content, hitem, hp, hp'⟩ := h
  exact ⟨file, content, hitem, hp', hp⟩

/-- Both paths are recognised by the canonical path of the file. So one of them is refused for a
cycle exactly where the other one is. -/
theorem key {host : Host} (h : host.disk.SameFile p p') :
    host.world.key p' = host.world.key p := by
  obtain ⟨file, content, -, hp, hp'⟩ := h
  have hkey : ∀ {q}, host.disk.follow q = .ok (.found file) →
      host.world.key q = pathOf file := by
    intro q hq
    show (host.disk.canonical? q).getD q = pathOf file
    rw [canonical?, hq]
    rfl
  rw [hkey hp, hkey hp']

/-- A file reads the same on all paths to it that are not too long. The limit is asked of the second
path only, since the first one was read. -/
theorem read (h : d.SameFile p p') (hlimit : p'.text.utf8ByteSize ≤ pathLimit)
    (hread : d.read p = .ok text) : d.read p' = .ok text := by
  obtain ⟨file, content, hitem, hp, hp'⟩ := h
  obtain ⟨-, file', content', hfollow, hitem', htext⟩ := read_eq_ok.mp hread
  cases hp.symm.trans hfollow
  exact read_eq_ok.mpr ⟨hlimit, file, content', hp', hitem', htext⟩

/-- From directories that lead to one location, a name leads to one file. Links are excluded, for a
name that leads up goes by where a directory is and not by how it was reached. -/
theorem join (hd : d.Plain) (hdir : d.Leads dir location) (hdir' : d.Leads dir' location)
    (hread : d.read (dir / q) = .ok text) : d.SameFile (dir / q) (dir' / q) := by
  obtain ⟨-, file, content, hfollow, hitem, -⟩ := read_eq_ok.mp hread
  exact ⟨file, content, hitem, hfollow,
    follow_join_eq hd hdir hdir' hfollow (isDirectory_of_item? hitem)⟩

end SameFile

/-- The sources are one text, or both are paths to one file. -/
inductive SameSource (d : Disk) : Source → Source → Prop
  | text (content : String) : SameSource d (.text content) (.text content)
  | file {p p' : Path} (h : d.SameFile p p') : SameSource d (.file p) (.file p')

theorem SameSource.symm {source source' : Source} (h : d.SameSource source source') :
    d.SameSource source' source := by
  cases h with
  | text content => exact .text content
  | file h => exact .file h.symm

end Disk

namespace Loader

variable {host : Host} {d : Disk} {l l' : Loader} {p p' : Path} {source source' : Source}
  {text : String} {D : Value}

/-- The loaders differ at most in how their root is spelled. -/
structure Alike (d : Disk) (l l' : Loader) : Prop where
  mergeKeys : l'.mergeKeys = l.mergeKeys
  opened : l'.opened = l.opened
  root : ∃ location, d.Leads l.root location ∧ d.Leads l'.root location

namespace Alike

/-- Which loader comes first does not matter either, so one direction of the law gives the other. -/
theorem symm (h : Alike d l l') : Alike d l' l where
  mergeKeys := h.mergeKeys.symm
  opened := h.opened.symm
  root := by
    obtain ⟨location, hroot, hroot'⟩ := h.root
    exact ⟨location, hroot', hroot⟩

/-- Entering one file leaves the loaders alike. Files are entered by what they are recognised by,
which does not depend on spelling. -/
theorem enter (h : Alike d l l') (key : Path) : Alike d (l.enter key) (l'.enter key) where
  mergeKeys := h.mergeKeys
  opened := congrArg (key :: ·) h.opened
  root := h.root

/-- Inside a file the loaders stay alike, whatever paths have led there. Their roots may be spelled
differently from here on, even if they were the same before. -/
theorem inside (h : Alike d l l') (hd : d.Plain) (hfile : d.SameFile p p') :
    Alike d (l.forInclude p) (l'.forInclude p') where
  mergeKeys := h.mergeKeys
  opened := h.opened
  root := by
    obtain ⟨file, content, hitem, hp, hp'⟩ := hfile
    have hfile := Disk.isDirectory_of_item? hitem
    exact ⟨file.dropLast, Disk.leads_directory hd hp hfile, Disk.leads_directory hd hp' hfile⟩

/-- A file that one of the loaders has under a name is the file that the other one finds. -/
theorem sameFile (h : Alike host.disk l l') (hd : host.disk.Plain) {name : Path}
    (hload : l.included host.world (l.root / name) = .ok D) :
    host.disk.SameFile (l.root / name) (l'.root / name) := by
  obtain ⟨location, hroot, hroot'⟩ := h.root
  obtain ⟨text, hread⟩ := exists_read_of_loadFile hload
  exact .join hd hroot hroot' hread

end Alike

/-- A file that has a document under one path has it under the other, for loaders that are alike.
The limit of lengths is asked of the second load, for every path that it looks up. -/
theorem loadFile_of_alike (hd : host.disk.Plain) (h : Alike host.disk l l')
    (hfile : host.disk.SameFile p p')
    (hlimit : ∀ x, l'.Visits host.world (.file p') x → x.text.utf8ByteSize ≤ Disk.pathLimit)
    (hload : (l.loadFile host.world p).1 = .ok D) :
    (l'.loadFile host.world p').1 = .ok D := by
  induction l, p using load_induction (w := host.world) generalizing l' p' D with
  | step l p ih =>
    obtain ⟨-, hout⟩ | ⟨_, -, -, hout⟩ | ⟨text, hopen, hread, hout⟩ :=
      loadFile_cases host.world l p
    · cases hout.symm.trans hload
    · cases hout.symm.trans hload
    · have hkey := hfile.key
      have hopen' : l'.isOpen (host.world.key p') = false := by
        rw [hkey, isOpen, h.opened]
        exact hopen
      have hread' := hfile.read (hlimit p' visits_self) hread
      have hinside := h.enter (host.world.key p)
      rw [loadFile_of_read hopen' hread', hkey]
      refine compose_of_named hinside.mergeKeys ?_ (hout.symm.trans hload)
      intro name hasks document hdocument
      have hname := hinside.sameFile hd hdocument
      refine ih text hopen hread _ (hinside.inside hd hname) hname ?_ hdocument
      intro x hx
      rw [← hkey] at hasks hx
      exact hlimit x (visits_of_asks hopen' hread' hasks hx)

/-- A load that has a document has it however the root and the source are spelled. Failures are left
out, because they show paths as they were spelled. -/
theorem load_of_alike (hd : host.disk.Plain) (h : Alike host.disk l l')
    (hsource : host.disk.SameSource source source')
    (hlimit : ∀ x, l'.Visits host.world source' x → x.text.utf8ByteSize ≤ Disk.pathLimit)
    (hload : (l.load host.world source).1 = .ok D) : (l'.load host.world source').1 = .ok D := by
  cases hsource with
  | file hfile => exact loadFile_of_alike hd h hfile hlimit hload
  | text content =>
    refine compose_of_named h.mergeKeys ?_ hload
    intro name hasks document hdocument
    have hname := h.sameFile hd hdocument
    refine loadFile_of_alike hd (h.inside hd hname) hname ?_ hdocument
    exact fun x hx => hlimit x (visits_of_text_asks hasks hx)

/-- **The spelling of a path does not matter.** On a disk without links, let two loaders treat merge
keys alike and have roots that lead to one location, and let their sources be one text or two paths
to one file. When no path that they look up is too long, a document comes out of the one load just
where it comes out of the other. For whatever path a file is loaded under, the names in it are
followed from the directory that holds it. -/
theorem load_eq_ok_iff_of_alike (host : Host) (hd : host.disk.Plain) (l l' : Loader)
    (source source' : Source) (h : Alike host.disk l l')
    (hsource : host.disk.SameSource source source')
    (hlimit : ∀ p, l.Visits host.world source p ∨ l'.Visits host.world source' p →
      p.text.utf8ByteSize ≤ Disk.pathLimit) :
    (∀ D, (l.load host.world source).1 = .ok D ↔ (l'.load host.world source').1 = .ok D) ∧
    ∀ (outer : Loader) (text : String) (c : Call), outer.Makes host.world text c →
      ∀ file content, host.disk.follow c.path = .ok (.found file) →
        host.disk.item? file = some (.file content) →
          ∀ name : Path, name ≠ .empty →
            host.disk.follow (c.loader.root / name) =
              (host.disk.seenFrom file.dropLast).follow name := by
  refine ⟨fun D => ⟨?_, ?_⟩, ?_⟩
  · exact load_of_alike hd h hsource fun p hp => hlimit p (.inr hp)
  · exact load_of_alike hd h.symm hsource.symm fun p hp => hlimit p (.inl hp)
  · intro outer text c hmakes file content hfollow hitem name hname
    have hroot : c.loader.root = c.path.directory := congrArg Loader.root hmakes.2
    rw [hroot]
    exact Disk.follow_join hd
      (Disk.leads_directory hd hfollow (Disk.isDirectory_of_item? hitem)) hname

end Loader

/-- A host with two files in the current directory. -/
def Host.spelled : Host where
  disk := (Disk.writeFile ⟨"/a/f"⟩ "x: !include g".toUTF8 ⟨[], ["a"]⟩).writeFile ⟨"/a/g"⟩
    "y: 1".toUTF8
  bindings := []

/-- A load from a path to `/a/f` looks up this file under the path that was given, and `/a/g` under
its name joined to the root. The lengths of two paths remain to be compared with the limit. -/
theorem Host.eq_of_named_spelled {root p : Path}
    (hf : spelled.world.read p = .ok "x: !include g")
    (hg : spelled.world.read (root / ⟨"g"⟩) = .ok "y: 1") {q : Path}
    (h : (Loader.withRoot root).NamedFile spelled.world (.file p) q) :
    q = p ∨ q = root / ⟨"g"⟩ := by
  have htop : (Source.file p).Holds spelled.world
      (.mapping [(.string "x", .tagged ⟨"include"⟩ (.string "g"))]) :=
    ⟨_, hf, by decide +kernel⟩
  have hnext : (Source.file (root / ⟨"g"⟩)).Holds spelled.world
      (.mapping [(.string "y", .number (.int 1))]) :=
    ⟨_, hg, by decide +kernel⟩
  induction h with
  | self h => exact .inl (Source.file.inj h).symm
  | top hvalue hname =>
    rw [hvalue.eq htop, ← Value.mem_includedNames] at hname
    rw [List.mem_singleton.mp hname]
    exact .inr rfl
  | next _ hother hvalue hname ih =>
    rcases ih with rfl | rfl
    · exact absurd rfl hother
    · rw [hvalue.eq hnext, ← Value.mem_includedNames] at hname
      exact absurd hname List.not_mem_nil

/-- The file `f` of the current directory is loaded a second time under a longer path and with
another root. The hypotheses hold of this disk, and the result carries over. -/
theorem load_spelled :
    Host.spelled.disk.Plain ∧
    Loader.Alike Host.spelled.disk (.withRoot .empty) (.withRoot ⟨"/a/."⟩) ∧
    Host.spelled.disk.SameSource (.file ⟨"f"⟩) (.file ⟨"/a/../a//./f"⟩) ∧
    (∀ p, (Loader.withRoot .empty).Visits Host.spelled.world (.file ⟨"f"⟩) p ∨
      (Loader.withRoot ⟨"/a/."⟩).Visits Host.spelled.world (.file ⟨"/a/../a//./f"⟩) p →
        p.text.utf8ByteSize ≤ Disk.pathLimit) ∧
    ((Loader.withRoot ⟨"/a/."⟩).load Host.spelled.world (.file ⟨"/a/../a//./f"⟩)).1 =
      .ok (.mapping [(.string "x", .mapping [(.string "y", .number (.int 1))])]) := by
  have hplain : Host.spelled.disk.Plain :=
    ((Disk.plain_nil ["a"]).writeFile ⟨"/a/f"⟩ "x: !include g".toUTF8).writeFile ⟨"/a/g"⟩
      "y: 1".toUTF8
  have halike : Loader.Alike Host.spelled.disk (.withRoot .empty) (.withRoot ⟨"/a/."⟩) :=
    ⟨rfl, rfl, ["a"], .inl ⟨rfl, rfl⟩, .inr (by decide +kernel)⟩
  have hsource : Host.spelled.disk.SameSource (.file ⟨"f"⟩) (.file ⟨"/a/../a//./f"⟩) :=
    .file ⟨["a", "f"], _, rfl, by decide +kernel, by decide +kernel⟩
  have hlimit : ∀ p, (Loader.withRoot .empty).Visits Host.spelled.world (.file ⟨"f"⟩) p ∨
      (Loader.withRoot ⟨"/a/."⟩).Visits Host.spelled.world (.file ⟨"/a/../a//./f"⟩) p →
        p.text.utf8ByteSize ≤ Disk.pathLimit := by
    rintro p (hp | hp)
    · rcases Host.eq_of_named_spelled (by decide +kernel) (by decide +kernel)
        (Loader.namedFile_of_visits hp) with rfl | rfl <;> decide +kernel
    · rcases Host.eq_of_named_spelled (by decide +kernel) (by decide +kernel)
        (Loader.namedFile_of_visits hp) with rfl | rfl <;> decide +kernel
  refine ⟨hplain, halike, hsource, hlimit, ?_⟩
  have hiff := Loader.load_eq_ok_iff_of_alike Host.spelled hplain _ _ _ _ halike
    hsource hlimit
  exact (hiff.1 _).mp (by decide +kernel)

end YamlWeave
