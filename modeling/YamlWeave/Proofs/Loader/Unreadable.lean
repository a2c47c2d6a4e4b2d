import YamlWeave.World.Host
import YamlWeave.Proofs.World.Canonical
import YamlWeave.Proofs.Loader.Termination

/-!
# Paths that cannot be read

A load asks first whether a path is recognised as a file that is being loaded, and reads it then. So
a path that cannot be read is reported as such unless it is mistaken for an open file
(`Disk.Mistaken`). On a host this takes an absolute path with a slash or a dot behind the name of
the open file, or a path to it that is too long (`unreadable_unless_mistaken`). It does happen: a
file that names itself with a slash behind its name fails for a cycle, while the same path is
reported as unreadable as long as the file is not open (`slash_behind_open_file`).
-/

set_option autoImplicit false

namespace YamlWeave

namespace Loader

variable {host : Host} {l : Loader} {p file : Path} {fault : ReadFault}

/-- An open file is at a place of its own and holds a text. The path by which it is recognised is
made of this place alone, without links. -/
theorem Sound.exists_place (h : l.Sound host.world) (hfile : file ∈ l.opened) :
    ∃ place content text, file = Disk.pathOf place ∧
      host.disk.item? place = some (.file content) ∧ Disk.text? content = some text := by
  obtain ⟨p, text, hread, hcanonical⟩ := h.isFile file hfile
  obtain ⟨place, content, hplace, hitem, htext⟩ := Disk.exists_place_of_read hread hcanonical
  exact ⟨place, content, text, hplace, hitem, htext⟩

/-- A path that cannot be read is recognised as an open file just where it is mistaken for it.
Either it has no canonical path, and is compared as it is, or it has one but is too long to be
read. -/
theorem isOpen_key_iff_mistaken (hd : host.disk.WellFormed) (hsound : l.Sound host.world)
    (hrefused : host.world.read p = .error fault) :
    l.isOpen (host.world.key p) = true ↔ ∃ file ∈ l.opened, host.disk.Mistaken p file := by
  rw [isOpen, List.any_eq_true]
  refine exists_congr fun file => and_congr_right fun hfile => ?_
  obtain ⟨place, content, text, rfl, hitem, htext⟩ := hsound.exists_place hfile
  exact hd.sameAs_key_iff hitem htext hrefused

/-- A path that is mistaken for an open file is too long or goes on behind a file. So a file that is
missing is always reported as missing. -/
theorem fault_of_mistaken (hd : host.disk.WellFormed) (hsound : l.Sound host.world)
    (hrefused : host.world.read p = .error fault)
    (h : ∃ file ∈ l.opened, host.disk.Mistaken p file) :
    fault = .notADirectory ∨ fault = .nameTooLong := by
  obtain ⟨file, hfile, hmistaken⟩ := h
  obtain ⟨place, content, text, rfl, hitem, htext⟩ := hsound.exists_place hfile
  exact hd.fault_of_mistaken hitem hmistaken hrefused

/-- A path that cannot be read is reported with what is wrong with it, or it is mistaken for an open
file and fails for a cycle. The two cases exclude each other. -/
theorem loadFile_of_refused (hd : host.disk.WellFormed) (hsound : l.Sound host.world)
    (hrefused : host.world.read p = .error fault) :
    ((∀ file ∈ l.opened, ¬ host.disk.Mistaken p file) ∧
      (l.loadFile host.world p).1 = .error (.unreadable p fault)) ∨
    ((∃ file ∈ l.opened, host.disk.Mistaken p file) ∧
      (l.loadFile host.world p).1 = .error (.circularInclude p)) := by
  have hopen := isOpen_key_iff_mistaken hd hsound hrefused
  by_cases hmistaken : ∃ file ∈ l.opened, host.disk.Mistaken p file
  · exact .inr ⟨hmistaken, by rw [loadFile_of_isOpen (hopen.mpr hmistaken)]⟩
  · have hclosed : l.isOpen (host.world.key p) = false :=
      Bool.eq_false_iff.mpr (mt hopen.mp hmistaken)
    refine .inl ⟨?_, by rw [loadFile_of_unreadable hclosed hrefused]⟩
    intro file hfile hfound
    exact hmistaken ⟨file, hfile, hfound⟩

end Loader

/-- **A path that cannot be read is reported with what is wrong with it, unless it is mistaken for
an open file.** This holds of every call inside every load, whatever is open. Just those paths fail
for a cycle instead that are mistaken for an open file, and none of them is missing: each is too
long or goes on behind a file. A relative path or one that ends in a name is never mistaken, as long
as it is not too long. -/
theorem unreadable_unless_mistaken {host : Host} (hd : host.disk.WellFormed) {l : Loader}
    (hsound : l.Sound host.world) {source : Source} {c : Loader.Call} {outer : List Loader.Call}
    (hnested : l.Nested host.world source (c :: outer)) {fault : ReadFault}
    (hrefused : host.world.read c.path = .error fault) :
    ((c.loader.loadFile host.world c.path).1 = .error (.unreadable c.path fault) ↔
      ∀ file ∈ c.loader.opened, ¬ host.disk.Mistaken c.path file) ∧
    ((c.loader.loadFile host.world c.path).1 = .error (.circularInclude c.path) ↔
      ∃ file ∈ c.loader.opened, host.disk.Mistaken c.path file) ∧
    ((c.loader.loadFile host.world c.path).1 = .error (.circularInclude c.path) →
      fault = .notADirectory ∨ fault = .nameTooLong) ∧
    (c.path.isAbsolute = false ∨ c.path.endsInName = true →
      c.path.text.utf8ByteSize ≤ Disk.pathLimit →
        (c.loader.loadFile host.world c.path).1 = .error (.unreadable c.path fault)) := by
  have hinside := Loader.sound_of_nested hsound hnested
  rcases Loader.loadFile_of_refused hd hinside hrefused with ⟨hnone, hout⟩ | ⟨hsome, hout⟩
  · rw [hout]
    refine ⟨iff_of_true rfl hnone, iff_of_false nofun ?_, nofun, fun _ _ => rfl⟩
    rintro ⟨file, hfile, hmistaken⟩
    exact hnone file hfile hmistaken
  · rw [hout]
    refine ⟨iff_of_false nofun ?_, iff_of_true rfl hsome, fun _ => ?_, fun hend hlimit => ?_⟩
    · intro hnone
      obtain ⟨file, hfile, hmistaken⟩ := hsome
      exact hnone file hfile hmistaken
    · exact Loader.fault_of_mistaken hd hinside hrefused hsome
    · obtain ⟨file, -, hmistaken⟩ := hsome
      exact absurd hmistaken (Disk.not_mistaken hend hlimit)

/-- A host with a file that includes itself with a slash behind its name. -/
def Host.looping : Host where
  disk := ⟨[(["f"], .file "k: !include /f/".toUTF8)], []⟩
  bindings := []

/-- With a slash behind its name, an open file is taken for a cycle although the path cannot be
read. As long as the file is not open, the same path is reported as unreadable. -/
theorem slash_behind_open_file :
    Host.looping.world.read ⟨"/f/"⟩ = .error .notADirectory ∧
      load Host.looping.world .standard (.file ⟨"/f"⟩) = .error (.circularInclude ⟨"/f/"⟩) ∧
      load Host.looping.world .standard (.file ⟨"/f/"⟩) =
        .error (.unreadable ⟨"/f/"⟩ .notADirectory) := by
  refine ⟨?_, ?_, ?_⟩ <;> decide +kernel

/-- The call for the path with the slash at its end runs inside the call for the file. The path
cannot be read, but it has the components of the open file and is taken for it. -/
theorem nested_slash_behind_open_file :
    Host.looping.disk.WellFormed ∧ Loader.Sound Host.looping.world ⟨.root, true, []⟩ ∧
      Loader.Nested Host.looping.world ⟨.root, true, []⟩ (.file ⟨"/f"⟩)
        [⟨⟨.root, true, [⟨"/f"⟩]⟩, ⟨"/f/"⟩⟩, ⟨⟨.root, true, []⟩, ⟨"/f"⟩⟩] ∧
      Host.looping.world.read ⟨"/f/"⟩ = .error .notADirectory ∧
      (Loader.loadFile Host.looping.world ⟨.root, true, [⟨"/f"⟩]⟩ ⟨"/f/"⟩).1 =
        .error (.circularInclude ⟨"/f/"⟩) := by
  have hd : Host.looping.disk.WellFormed := by decide +kernel
  have hsound : Loader.Sound Host.looping.world ⟨.root, true, []⟩ := ⟨.nil, nofun⟩
  have hnested : Loader.Nested Host.looping.world ⟨.root, true, []⟩ (.file ⟨"/f"⟩)
      [⟨⟨.root, true, [⟨"/f"⟩]⟩, ⟨"/f/"⟩⟩, ⟨⟨.root, true, []⟩, ⟨"/f"⟩⟩] := by
    have hreads : Loader.Call.Reads Host.looping.world ⟨⟨.root, true, []⟩, ⟨"/f"⟩⟩
        "k: !include /f/" := ⟨by decide +kernel, by decide +kernel⟩
    have hvalue : Document.value? "k: !include /f/" =
        some (.mapping [(.string "k", .tagged ⟨"include"⟩ (.string "/f/"))]) := by decide +kernel
    refine .inside (.file ⟨"/f"⟩) hreads ⟨⟨_, hvalue, ?_⟩, by decide +kernel⟩
    have hsplit : (Value.mapping [(.string "k", .tagged ⟨"include"⟩ (.string "/f/"))]).parts =
        [.string "k"] ++ .tagged ⟨"include"⟩ (.string "/f/") :: [] := rfl
    refine .part rfl hsplit ?_ (@Value.Asks.file _ _ _ ["/f/"] [] [] _ rfl rfl rfl nofun)
    intro x hx
    rw [List.mem_singleton.mp hx]
    exact ⟨_, rfl⟩
  have hread : Host.looping.world.read ⟨"/f/"⟩ = .error .notADirectory := by decide +kernel
  refine ⟨hd, hsound, hnested, hread, ?_⟩
  refine (unreadable_unless_mistaken hd hsound hnested hread).2.1.mpr ?_
  exact ⟨⟨"/f"⟩, List.mem_singleton_self _, .behind (by decide) (by decide) (by decide)⟩

end YamlWeave
