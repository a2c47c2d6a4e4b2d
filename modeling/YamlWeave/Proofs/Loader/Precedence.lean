import YamlWeave.Proofs.Loader.TakingIn
import YamlWeave.Proofs.Value.Document
import YamlWeave.World.Host

/-!
# Files under a merge key

A text can take in the mappings of files in two ways: by one node under its merge key that lists the
files, or by a list of nodes for one file each. In a node that lists files the last one that has a
key counts, in a list under a merge key the first one. So a list of files and the list of nodes for
the same files, from the last to the first, come to the same (`include_list_agrees`): the texts have
documents that differ in nothing but the order of entries, or both are refused for the same cause.
Only which file a cycle is found at and which fault of several a merge key is refused for may
differ, because files are loaded and entries are merged in another order.

For two files with these texts the two loads run in two worlds. A file that is being loaded is never
read again, so the worlds look alike to all that is loaded inside (`loadFile_of_alikeBeside`).
-/

set_option autoImplicit false

namespace YamlWeave

open Value

/-- A mapping that has, under its merge key, one node that lists files. -/
def Value.listing (tag : Tag) (front back : Entries) (files : List FileNode) : Value :=
  takingIn front back (.tagged tag (.sequence (files.map (·.node))))

/-- A mapping that has, under its merge key, a node for each of the files, the last one first. -/
def Value.eachInTurn (tag : Tag) (front back : Entries) (files : List FileNode) : Value :=
  takingIn front back (.sequence ((files.map (·.node)).reverse.map (.tagged tag)))

/-- Two texts have the same entries besides their merge keys, of which the keys have no tags. Under
their merge keys both include the same files, in either way. -/
structure IncludesBothWays (tag : Tag) (front back : Entries) (files : List FileNode)
    (text text' : String) : Prop where
  handler : Handler.ofTag? tag.text = some .inclusion
  nonempty : files ≠ []
  listing : Document.value? text = some (listing tag front back files)
  eachInTurn : Document.value? text' = some (eachInTurn tag front back files)
  keys : ∀ entry ∈ front ++ back, entry.1.TagFree

/-- The tags of both texts are refused for one cause, or both are cut off for a cycle, or both are
resolved around the merge key, to the same entries besides it. What comes before the merge key is
the same, so is the first failure there; what comes behind it is only reached by both or by
neither. -/
theorem IncludesBothWays.resolved {tag : Tag} {front back : Entries} {files : List FileNode}
    {text text' : String} (h : IncludesBothWays tag front back files text text') {r : Resolver}
    (hfiles : ∀ file ∈ files, r.LoadsMapping file) :
    (∃ e, (Value.listing tag front back files).resolved r = .error e ∧
      (Value.eachInTurn tag front back files).resolved r = .error e) ∨
    (Circular ((Value.listing tag front back files).resolved r) ∧
      Circular ((Value.eachInTurn tag front back files).resolved r)) ∨
    ∃ entries entries', (front ++ back).mapM (resolvedValue r) = .ok (entries ++ entries') ∧
      (Value.listing tag front back files).resolved r =
        .ok (takingIn entries entries' (overlaid (files.map (·.entries)))) ∧
      (Value.eachInTurn tag front back files).resolved r =
        .ok (takingIn entries entries' (backwards (files.map (·.entries)))) := by
  have hresolved := resolved_takingIn (r := r) (Document.distinct_of_value? h.listing) h.keys
  have hresolved' := resolved_takingIn (r := r) (Document.distinct_of_value? h.eachInTurn) h.keys
  rw [Value.listing, Value.eachInTurn, hresolved, hresolved', List.mapM_append]
  -- In the order of resolving: the entries before the merge key, what it takes in, those behind it.
  cases front.mapM (resolvedValue r) with
  | error e => exact .inl ⟨e, rfl, rfl⟩
  | ok entries =>
    rcases Resolver.resolved_nodes h.handler h.nonempty hfiles with
      ⟨⟨file, hnode⟩, ⟨file', hnode'⟩⟩ | ⟨hnode, hnode'⟩
    · rw [hnode, hnode']
      exact .inr (.inl ⟨⟨file, rfl⟩, ⟨file', rfl⟩⟩)
    · rw [hnode, hnode']
      cases back.mapM (resolvedValue r) with
      | error e => exact .inl ⟨e, rfl, rfl⟩
      | ok entries' => exact .inr (.inr ⟨entries, entries', rfl, rfl, rfl⟩)

/-- The outcomes of two texts agree. `written` are the entries that both texts have besides their
merge keys, `files` are those that they take in, and `r` resolves the tags. -/
inductive OutcomesAgree (r : Resolver) (path : Path) (written : Entries) (files : List FileNode)
    (v v' : Value) : Except Failure Value → Except Failure Value → Prop
  /-- Both have documents, which are the same. A written entry counts before all files, and a later
  file counts before an earlier one. -/
  | loaded {merged merged' : Entries} (hsame : (mapping merged).same (mapping merged') = true)
      (hwritten : ∀ entry ∈ written, ∃ u D, entry.2.resolved r = .ok u ∧ u.merged = .ok D ∧
        merged.get? entry.1 = some D ∧ merged'.get? entry.1 = some D)
      (hfiles : ∀ (x u : Value) earlier file later, x.Distinct → written.contains x = false →
        files = earlier ++ file :: later → file.entries.get? x = some u →
          (∀ other ∈ later, other.entries.contains x = false) →
            ∃ D, u.merged = .ok D ∧ merged.get? x = some D ∧ merged'.get? x = some D) :
      OutcomesAgree r path written files v v' (.ok (.mapping merged)) (.ok (.mapping merged'))
  /-- The tags of both are resolved, and the merge keys of both are refused. -/
  | unmergeable {u u' : Value} {fault fault' : MergeFault} (hresolved : v.resolved r = .ok u)
      (hresolved' : v'.resolved r = .ok u') :
      OutcomesAgree r path written files v v' (.error (.unmergeable path fault))
        (.error (.unmergeable path fault'))
  /-- Tags of both are refused for one cause. -/
  | refused {e : Failure} (hresolved : v.resolved r = .error e)
      (hresolved' : v'.resolved r = .error e) :
      OutcomesAgree r path written files v v' (.error e) (.error e)
  /-- Both are cut off for a cycle. -/
  | circular {file file' : Path} (hresolved : v.resolved r = .error (.circularInclude file))
      (hresolved' : v'.resolved r = .error (.circularInclude file')) :
      OutcomesAgree r path written files v v' (.error (.circularInclude file))
        (.error (.circularInclude file'))

/-- Where the tags of both values are resolved, merging decides, and its outcomes agree. The
hypotheses on keys are those under which mappings are compared by what is looked up in them. -/
theorem OutcomesAgree.of_resolved {r : Resolver} {path : Path} {files : List FileNode}
    {v v' : Value} {written front back : Entries}
    (hfiles : ∀ file ∈ files, Entries.Keyed file.entries)
    (hwritten : written.mapM (resolvedValue r) = .ok (front ++ back))
    (h : v.resolved r = .ok (takingIn front back (overlaid (files.map (·.entries)))))
    (h' : v'.resolved r = .ok (takingIn front back (backwards (files.map (·.entries)))))
    (hdistinct : (takingIn front back (overlaid (files.map (·.entries)))).Distinct)
    (hdistinct' : (takingIn front back (backwards (files.map (·.entries)))).Distinct) :
    OutcomesAgree r path written files v v'
      ((takingIn front back (overlaid (files.map (·.entries)))).merged.mapError (.unmergeable path))
      ((takingIn front back (backwards (files.map (·.entries)))).merged.mapError
        (.unmergeable path)) := by
  have hsources : ∀ entries ∈ files.map (·.entries), Entries.Keyed entries :=
    List.forall_mem_map.mpr hfiles
  have hkeyed := hdistinct.takingIn.2
  rcases merged_takenIn hdistinct hdistinct' hsources with
    ⟨fault, fault', hmerged, hmerged'⟩ | ⟨merged, merged', hmerged, hmerged', hsame, hfound⟩
  · rw [hmerged, hmerged']
    exact .unmergeable h h'
  · rw [hmerged, hmerged']
    refine .loaded hsame (fun entry hentry => ?_) ?_
    · obtain ⟨other, hother, hvalue⟩ := exists_ok_of_mapM_eq_ok hwritten hentry
      obtain ⟨hkey, hvalue⟩ := resolvedValue_eq_ok.mp hvalue
      have hlookup := Entries.get?_of_mem hkeyed hother
      obtain ⟨D, hD, hout, hout'⟩ := hfound other.1 other.2 (hkeyed.proper other hother)
        (by rw [hlookup]; rfl)
      rw [hkey]
      exact ⟨other.2, D, hvalue, hD, hout, hout'⟩
    · intro x u earlier file later hx hnew hsplit hvalue hlater
      rw [Entries.contains_of_keys_eq (keys_of_mapM_resolvedValue hwritten),
        ← Entries.get?_eq_none] at hnew
      apply hfound x u hx
      rw [hnew, Option.none_or]
      rw [hsplit, List.map_append, List.map_cons] at hsources ⊢
      exact Entries.get?_ofList_flatten hsources hx hvalue (List.forall_mem_map.mpr hlater)

/-- Two worlds differ in nothing but the text of one file. -/
structure World.AlikeBeside (w w' : World) (p : Path) : Prop where
  canonical? : w'.canonical? = w.canonical?
  valueOf? : w'.valueOf? = w.valueOf?
  read : ∀ q, (w.key p).sameAs (w.key q) = false → w'.read q = w.read q

theorem World.AlikeBeside.key_eq {w w' : World} {p : Path} (h : w.AlikeBeside w' p) (q : Path) :
    w'.key q = w.key q := by
  rw [World.key, World.key, h.canonical?]

namespace Loader

variable {w w' : World} {l : Loader} {tag : Tag} {front back : Entries} {files : List FileNode}
  {text text' : String}

/-- Texts that include files in both ways have outcomes that agree. Nothing is asked of the entries
besides the merge keys: they may fail, and then both texts do. -/
theorem compose_agree {load : Path → Except Failure Value} (hmergeKeys : l.mergeKeys = true)
    (h : IncludesBothWays tag front back files text text')
    (hload : ∀ q D, load q = .ok D → D.Distinct)
    (hfiles : ∀ file ∈ files, (l.resolver w load).LoadsMapping file) (path : Path) :
    OutcomesAgree (l.resolver w load) path (front ++ back) files (listing tag front back files)
      (eachInTurn tag front back files) (l.compose w load text path)
      (l.compose w load text' path) := by
  rw [compose_of_value? h.listing, compose_of_value? h.eachInTurn]
  rcases h.resolved hfiles with ⟨e, hresolved, hresolved'⟩ |
    ⟨⟨file, hresolved⟩, ⟨file', hresolved'⟩⟩ | ⟨entries, entries', hwritten, hresolved, hresolved'⟩
  · rw [hresolved, hresolved']
    exact .refused hresolved hresolved'
  · rw [hresolved, hresolved']
    exact .circular hresolved hresolved'
  · have hdistinct := kept_distinct.resolved hload hresolved
    have hdistinct' := kept_distinct.resolved hload hresolved'
    have hkeyed : ∀ file ∈ files, Entries.Keyed file.entries :=
      fun file hfile => Entries.keyed_of_distinct (hfiles file hfile).distinct
    rw [hresolved, hresolved', hmergeKeys]
    exact .of_resolved hkeyed hwritten hresolved hresolved' hdistinct hdistinct'

/-! ## Files that are being loaded -/

/-- A file that is being loaded is not read, so its text makes no difference. The two texts are
compared in one place, each in the middle of its own load, and this lets one law serve for both. -/
theorem loadFile_of_alikeBeside {p : Path} (h : w.AlikeBeside w' p)
    (hopen : l.isOpen (w.key p) = true) (q : Path) : (l.loadFile w' q).1 = (l.loadFile w q).1 := by
  induction l, q using load_induction (w := w) with
  | step l q ih =>
    have hkey := h.key_eq q
    cases hq : l.isOpen (w.key q) with
    | true => rw [loadFile_of_isOpen hq, loadFile_of_isOpen (hkey ▸ hq)]
    | false =>
      have hother : (w.key p).sameAs (w.key q) = false := by
        by_contra hsame
        obtain ⟨file, hfile, hp⟩ := List.any_eq_true.mp hopen
        rw [Bool.not_eq_false, Path.sameAs, beq_iff_eq] at hsame
        rw [Path.sameAs, hsame] at hp
        rw [isOpen, List.any_eq_false] at hq
        exact hq file hfile hp
      cases hread : w.read q with
      | error fault =>
        rw [loadFile_of_unreadable hq hread,
          loadFile_of_unreadable (hkey ▸ hq) ((h.read q hother).trans hread)]
      | ok text =>
        rw [loadFile_of_read hq hread,
          loadFile_of_read (hkey ▸ hq) ((h.read q hother).trans hread), hkey]
        refine compose_congr rfl rfl (fun _ _ _ _ => by rw [h.valueOf?]) fun other _ => ?_
        refine ih text hq hread other ?_
        show ((w.key q).sameAs (w.key p) || l.isOpen (w.key p)) = true
        rw [hopen, Bool.or_true]

/-- A file is loaded alone to a mapping. -/
structure LoadsAlone (w : World) (l : Loader) (file : FileNode) : Prop where
  name : file.node.scalarText? = some file.name
  alone : YamlWeave.load w ⟨none, l.mergeKeys⟩ (.file (l.root / ⟨file.name⟩)) =
    .ok (.mapping file.entries)

/-- A file that is loaded alone to a mapping is loaded to it inside a text as well, unless it is cut
off there. -/
theorem LoadsAlone.loadsMapping {file : FileNode} (h : l.LoadsAlone w file) :
    (l.resolver w (l.included w)).LoadsMapping file := by
  refine ⟨h.name, distinct_of_load h.alone, ?_⟩
  by_cases hcircular : Circular (l.included w (l.root / ⟨file.name⟩))
  · exact .inl hcircular
  · exact .inr ((load_file_alone hcircular).symm.trans h.alone)

/-- **A list of files and a list of nodes have opposite orders.** Texts that take in files in both
ways have outcomes that agree, and so have two files that hold these texts in the same place, in
worlds that differ in nothing else. Each of the files is loaded alone to a mapping. -/
theorem include_list_agrees (hmergeKeys : l.mergeKeys = true)
    (h : IncludesBothWays tag front back files text text')
    (hfiles : ∀ file ∈ files, l.LoadsAlone w file) :
    (∀ path, OutcomesAgree (l.resolver w (l.included w)) path (front ++ back) files
      (listing tag front back files) (eachInTurn tag front back files)
      (l.loadText w text path).1 (l.loadText w text' path).1) ∧
    ∀ w' p inside, l.isOpen (w.key p) = false → inside = l.enter (w.key p) →
      w.AlikeBeside w' p → w.read p = .ok text → w'.read p = .ok text' →
        OutcomesAgree (inside.resolver w (inside.included w)) p (front ++ back) files
          (listing tag front back files) (eachInTurn tag front back files)
          (l.loadFile w p).1 (l.loadFile w' p).1 := by
  refine ⟨fun path => ?_, ?_⟩
  · exact compose_agree hmergeKeys h (fun _ _ hD => kept_distinct.loadFile hD)
      (fun file hfile => (hfiles file hfile).loadsMapping) path
  · rintro w' p _ hopen rfl halike hread hread'
    have hkey := halike.key_eq p
    have hinside : (l.enter (w.key p)).compose w' ((l.enter (w.key p)).included w') text' p =
        (l.enter (w.key p)).compose w ((l.enter (w.key p)).included w) text' p := by
      refine compose_congr rfl rfl (fun _ _ _ _ => by rw [halike.valueOf?]) fun q _ => ?_
      refine loadFile_of_alikeBeside halike ?_ q
      show ((w.key p).sameAs (w.key p) || l.isOpen (w.key p)) = true
      rw [Path.sameAs, beq_self_eq_true, Bool.true_or]
    rw [loadFile_of_read hopen hread, loadFile_of_read (hkey.symm ▸ hopen) hread', hkey, hinside]
    -- What a file is loaded to alone does not depend on the files that are open.
    refine compose_agree hmergeKeys h (fun _ _ hD => kept_distinct.loadFile hD)
      (fun file hfile => ?_) p
    have hinsideAlone : (l.enter (w.key p)).LoadsAlone w file :=
      ⟨(hfiles file hfile).name, (hfiles file hfile).alone⟩
    exact hinsideAlone.loadsMapping

end Loader

/-- Two files that share a key. -/
def FileNode.sample : List FileNode :=
  [⟨.string "/f", "/f", [(.string "x", .int 1), (.string "y", .int 1)]⟩,
    ⟨.string "/g", "/g", [(.string "y", .int 2), (.string "z", .int 2)]⟩]

/-- A host with these files. -/
def Host.layered : Host where
  disk := ⟨[(["f"], .file "{x: 1, y: 1}".toUTF8), (["g"], .file "{y: 2, z: 2}".toUTF8)], []⟩
  bindings := []

/-- Both files have the key `y`, and the text and the second file have the key `z`. The second file
wins over the first one and the text over both. Only the order of entries differs. -/
theorem include_list_agrees_on_sample :
    IncludesBothWays ⟨"include"⟩ [(.string "z", .int 3)] [] FileNode.sample
        "{z: 3, <<: !include [/f, /g]}" "{z: 3, <<: [!include /g, !include /f]}" ∧
      (∀ file ∈ FileNode.sample, (Loader.withRoot .here).LoadsAlone Host.layered.world file) ∧
      OutcomesAgree
        ((Loader.withRoot .here).resolver Host.layered.world
          ((Loader.withRoot .here).included Host.layered.world))
        ⟨"<string>"⟩ [(.string "z", .int 3)] FileNode.sample
        (listing ⟨"include"⟩ [(.string "z", .int 3)] [] FileNode.sample)
        (eachInTurn ⟨"include"⟩ [(.string "z", .int 3)] [] FileNode.sample)
        (.ok (.mapping [(.string "z", .int 3), (.string "x", .int 1), (.string "y", .int 2)]))
        (.ok (.mapping [(.string "z", .int 3), (.string "y", .int 2), (.string "x", .int 1)])) := by
  have hboth : IncludesBothWays ⟨"include"⟩ [(.string "z", .int 3)] [] FileNode.sample
      "{z: 3, <<: !include [/f, /g]}" "{z: 3, <<: [!include /g, !include /f]}" := by
    refine ⟨by decide, nofun, by decide +kernel, by decide +kernel, fun entry hentry => ?_⟩
    rw [List.mem_singleton.mp hentry]
    exact kept_tagFree.scalar rfl
  have hfiles : ∀ file ∈ FileNode.sample,
      (Loader.withRoot .here).LoadsAlone Host.layered.world file := by
    intro file hfile
    rcases List.mem_pair.mp hfile with rfl | rfl
    · exact ⟨rfl, by decide +kernel⟩
    · exact ⟨rfl, by decide +kernel⟩
  refine ⟨hboth, hfiles, ?_⟩
  have hlisting : ((Loader.withRoot .here).loadText Host.layered.world
      "{z: 3, <<: !include [/f, /g]}" ⟨"<string>"⟩).1 =
        .ok (.mapping [(.string "z", .int 3), (.string "x", .int 1), (.string "y", .int 2)]) := by
    decide +kernel
  have heach : ((Loader.withRoot .here).loadText Host.layered.world
      "{z: 3, <<: [!include /g, !include /f]}" ⟨"<string>"⟩).1 =
        .ok (.mapping [(.string "z", .int 3), (.string "y", .int 2), (.string "x", .int 1)]) := by
    decide +kernel
  have hagree := (Loader.include_list_agrees rfl hboth hfiles).1 ⟨"<string>"⟩
  rwa [hlisting, heach] at hagree

end YamlWeave
