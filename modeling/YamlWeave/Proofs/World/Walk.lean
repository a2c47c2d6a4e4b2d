import YamlWeave.Proofs.Path
import YamlWeave.World.Host

/-!
# Where paths lead without links

On a disk without links every segment of a path leads from one location to the next (`Disk.Step`),
and what a path finds is found step by step. So a path that is seen from a directory leads where it
leads once this directory is the current one (`follow_join`), and the directory of a path that leads
to a file is the one that holds the file (`leads_directory`), however the path is spelled. Writing
files makes no links, so it keeps a disk plain (`Plain.writeFile`).

With links or without, an absolute path leads to the same place whichever directory is the current
one (`follow_seenFrom`).
-/

set_option autoImplicit false

namespace YamlWeave.Disk

variable {d : Disk} {follow : Location → List String → Except ReadFault Destination}
  {location next place file : Location} {segment : String} {segments rest : List String}
  {p dir dir' : Path} {content : ByteArray} {text : String}

/-- A disk without links, where what holds a directory is a directory. -/
structure Plain (d : Disk) : Prop where
  noLink : ∀ location target, d.item? location ≠ some (.link target)
  parent : ∀ location, d.isDirectory location = true → d.isDirectory location.dropLast = true

/-! ## Steps -/

/-- Where a segment leads from a directory. -/
inductive Step (d : Disk) (location : Location) : String → Location → Prop
  | stay {segment : String} (hdirectory : d.isDirectory location = true)
      (hcounts : Path.counts segment = false) : Step d location segment location
  | up (hdirectory : d.isDirectory location = true) : Step d location ".." location.dropLast
  | down {segment : String} {item : Item} (hdirectory : d.isDirectory location = true)
      (hcounts : Path.counts segment = true) (hup : segment ≠ "..")
      (hsize : segment.utf8ByteSize ≤ nameLimit)
      (hitem : d.item? (location ++ [segment]) = some item) :
      Step d location segment (location ++ [segment])

/-- Segments are followed from directories only, the idle ones too. -/
theorem Step.isDirectory (h : d.Step location segment next) : d.isDirectory location = true := by
  cases h <;> assumption

/-- A segment that does not count leads nowhere else. -/
theorem Step.eq_of_counts (h : d.Step location segment next)
    (hcounts : Path.counts segment = false) : next = location := by
  cases h with
  | stay => rfl
  | up => exact absurd hcounts (by decide)
  | down _ h => exact absurd h (by simp [hcounts])

theorem counts_eq_true : Path.counts segment = true ↔ segment ≠ "" ∧ segment ≠ "." := by
  simp [Path.counts]

/-- Segments lead on from directories only. Where there is none left, the walk has arrived, be it at
a file. -/
theorem walkWith_of_not_directory (h : d.isDirectory location = false) (hne : segments ≠ []) :
    d.walkWith follow location segments = .error .notADirectory := by
  obtain ⟨segment, rest, rfl⟩ := List.exists_cons_of_ne_nil hne
  rw [walkWith, h]
  rfl

/-- A walk goes on from where its first segment leads, unless this is a link. It is the step of all
inductions on walks. -/
theorem walkWith_of_step_of_not_link (h : d.Step location segment next)
    (hlink : ∀ target, d.item? next ≠ some (.link target)) :
    d.walkWith follow location (segment :: rest) = d.walkWith follow next rest := by
  rw [walkWith]
  cases h with
  | stay hdirectory hcounts =>
    have hidle : segment = "" ∨ segment = "." := by
      by_contra hne
      exact absurd (counts_eq_true.mpr (not_or.mp hne)) (by simp [hcounts])
    simp [hdirectory, hidle]
  | up hdirectory => simp [hdirectory]
  | @down _ item hdirectory hcounts hup hsize hitem =>
    obtain ⟨hempty, hdot⟩ := counts_eq_true.mp hcounts
    have hlong : ¬ segment.utf8ByteSize > nameLimit := Nat.not_lt.mpr hsize
    cases item with
    | link target => exact absurd hitem (hlink target)
    | _ => simp [hdirectory, hempty, hdot, hup, hlong, hitem]

theorem walkWith_of_step (hd : d.Plain) (h : d.Step location segment next) :
    d.walkWith follow location (segment :: rest) = d.walkWith follow next rest :=
  walkWith_of_step_of_not_link h (hd.noLink next)

/-- A walk that leads somewhere has a first step, or its first segment is a free name. In the second
case there is nothing behind it. -/
theorem walkWith_cons_eq_ok (hd : d.Plain) {destination : Destination}
    (h : d.walkWith follow location (segment :: rest) = .ok destination) :
    (∃ next, d.Step location segment next ∧ d.walkWith follow next rest = .ok destination) ∨
      (destination = .free (location ++ [segment]) ∧ d.isDirectory location = true ∧
        d.item? (location ++ [segment]) = none) := by
  have hgo : ∀ {next}, d.Step location segment next →
      ∃ next, d.Step location segment next ∧ d.walkWith follow next rest = .ok destination :=
    fun hstep => ⟨_, hstep, walkWith_of_step hd hstep ▸ h⟩
  cases hdirectory : d.isDirectory location with
  | false => simp [walkWith, hdirectory] at h
  | true =>
    cases hcounts : Path.counts segment with
    | false => exact .inl (hgo (.stay hdirectory hcounts))
    | true =>
      obtain ⟨hempty, hdot⟩ := counts_eq_true.mp hcounts
      by_cases hup : segment = ".."
      · subst hup
        exact .inl (hgo (.up hdirectory))
      · by_cases hlong : segment.utf8ByteSize > nameLimit
        · simp [walkWith, hdirectory, hempty, hdot, hup, hlong] at h
        · cases hitem : d.item? (location ++ [segment]) with
          | none =>
            by_cases hrest : rest = []
            · simp [walkWith, hdirectory, hempty, hdot, hup, hlong, hitem, hrest] at h
              exact .inr ⟨h.symm, rfl, rfl⟩
            · simp [walkWith, hdirectory, hempty, hdot, hup, hlong, hitem, hrest] at h
          | some item => exact .inl (hgo (.down hdirectory hcounts hup (Nat.not_lt.mp hlong) hitem))

/-- A walk that finds something has a first step. A free name is not something found. -/
theorem exists_step_of_walkWith (hd : d.Plain)
    (h : d.walkWith follow location (segment :: rest) = .ok (.found place)) :
    ∃ next, d.Step location segment next ∧ d.walkWith follow next rest = .ok (.found place) := by
  rcases walkWith_cons_eq_ok hd h with hstep | ⟨hfree, -, -⟩
  · exact hstep
  · cases hfree

/-- Nothing is at a free name, and the name is free in a directory. So a file can be put there
without hiding anything. -/
theorem free_of_walkWith (hd : d.Plain)
    (h : d.walkWith follow location segments = .ok (.free place)) :
    d.item? place = none ∧ d.isDirectory place.dropLast = true := by
  induction segments generalizing location with
  | nil => cases h
  | cons segment segments ih =>
    rcases walkWith_cons_eq_ok hd h with ⟨next, -, h⟩ | ⟨hfree, hdirectory, hitem⟩
    · exact ih h
    · cases hfree
      rw [List.dropLast_concat]
      exact ⟨hitem, hdirectory⟩

/-- A walk goes on from the place that its first part finds. This is where links have to be
excluded: with them, a place can be found that the walk does not stay at. -/
theorem walkWith_append (hd : d.Plain)
    (h : d.walkWith follow location segments = .ok (.found place)) (rest : List String) :
    d.walkWith follow location (segments ++ rest) = d.walkWith follow place rest := by
  induction segments generalizing location with
  | nil =>
    cases h
    rfl
  | cons segment segments ih =>
    obtain ⟨next, hstep, h⟩ := exists_step_of_walkWith hd h
    rw [List.cons_append, walkWith_of_step hd hstep, ih h]

/-- The first part of a walk that finds something finds something. -/
theorem exists_walkWith_of_append (hd : d.Plain)
    (h : d.walkWith follow location (segments ++ rest) = .ok (.found place)) :
    ∃ middle, d.walkWith follow location segments = .ok (.found middle) ∧
      d.walkWith follow middle rest = .ok (.found place) := by
  induction segments generalizing location with
  | nil => exact ⟨location, rfl, h⟩
  | cons segment segments ih =>
    obtain ⟨next, hstep, h⟩ := exists_step_of_walkWith hd h
    obtain ⟨middle, hmiddle, h⟩ := ih h
    exact ⟨middle, (walkWith_of_step hd hstep).trans hmiddle, h⟩

/-- A walk to a directory starts at one. For a walk without steps this is the directory itself. -/
theorem isDirectory_of_walkWith (hd : d.Plain)
    (h : d.walkWith follow location segments = .ok (.found place))
    (hplace : d.isDirectory place = true) : d.isDirectory location = true := by
  cases segments with
  | nil =>
    cases h
    exact hplace
  | cons segment segments =>
    obtain ⟨next, hstep, -⟩ := exists_step_of_walkWith hd h
    exact hstep.isDirectory

/-- A directory that is found by the segments that count is found with all others between them. For
a file this fails, because nothing may stand behind it. -/
theorem walkWith_of_filter (hd : d.Plain)
    (h : d.walkWith follow location (segments.filter Path.counts) = .ok (.found place))
    (hplace : d.isDirectory place = true) :
    d.walkWith follow location segments = .ok (.found place) := by
  induction segments generalizing location with
  | nil => exact h
  | cons segment segments ih =>
    cases hcounts : Path.counts segment with
    | false =>
      rw [List.filter_cons_of_neg (by simp [hcounts])] at h
      rw [walkWith_of_step hd (.stay (isDirectory_of_walkWith hd h hplace) hcounts)]
      exact ih h
    | true =>
      rw [List.filter_cons_of_pos hcounts] at h
      obtain ⟨next, hstep, h⟩ := exists_step_of_walkWith hd h
      rw [walkWith_of_step hd hstep]
      exact ih h

/-- A walk that finds a file finds it by its last name, in the directory that the names before it
lead to. Two dots are excluded as a last name, for they lead to a directory. -/
theorem exists_names_of_walkWith (hd : d.Plain) (hlocation : d.isDirectory location = true)
    (h : d.walkWith follow location segments = .ok (.found file))
    (hfile : d.isDirectory file = false) :
    ∃ front name place, segments.filter Path.counts = front ++ [name] ∧ file = place ++ [name] ∧
      d.isDirectory place = true ∧ d.walkWith follow location front = .ok (.found place) := by
  induction segments generalizing location with
  | nil =>
    cases h
    rw [hlocation] at hfile
    cases hfile
  | cons segment segments ih =>
    obtain ⟨next, hstep, h⟩ := exists_step_of_walkWith hd h
    -- The last name is found behind this segment.
    have hbehind : Path.counts segment = true → d.isDirectory next = true →
        ∃ front name place, (segment :: segments).filter Path.counts = front ++ [name] ∧
          file = place ++ [name] ∧ d.isDirectory place = true ∧
            d.walkWith follow location front = .ok (.found place) := by
      intro hcounts hnext
      obtain ⟨front, name, place, hnames, hfound, hplace, hfront⟩ := ih hnext h
      refine ⟨segment :: front, name, place, ?_, hfound, hplace, ?_⟩
      · rw [List.filter_cons_of_pos hcounts, hnames, List.cons_append]
      · rw [walkWith_of_step hd hstep, hfront]
    cases hstep with
    | stay hdirectory hcounts =>
      rw [List.filter_cons_of_neg (by simp [hcounts])]
      exact ih hdirectory h
    | up hdirectory => exact hbehind rfl (hd.parent location hdirectory)
    | down hdirectory hcounts hup hsize hitem =>
      cases hnext : d.isDirectory (location ++ [segment]) with
      | true => exact hbehind hcounts hnext
      | false =>
        cases segments with
        | nil =>
          cases h
          exact ⟨[], segment, location, List.filter_cons_of_pos hcounts, rfl, hdirectory, rfl⟩
        | cons other segments =>
          obtain ⟨_, hother, -⟩ := exists_step_of_walkWith hd h
          rw [hother.isDirectory] at hnext
          cases hnext

/-! ## Paths -/

/-- Where a path starts. -/
def origin (d : Disk) (p : Path) : Location :=
  if p.isAbsolute then [] else d.here

/-- A path is followed by its steps from where it starts, unless it is empty or has a zero in it. -/
theorem follow_eq (hp : p ≠ .empty) : d.follow p =
    if '\x00' ∈ p.text.toList then .error .zeroInPath
    else d.walk linkLimit (d.origin p) p.steps := by
  unfold Disk.follow origin Path.steps
  cases p.isAbsolute <;> simp [hp]

/-- A path leads somewhere when it has a text without a zero and its steps lead there, through no
more links than may be followed. -/
theorem follow_eq_ok {destination : Destination} : d.follow p = .ok destination ↔
    p ≠ .empty ∧ '\x00' ∉ p.text.toList ∧
      d.walk linkLimit (d.origin p) p.steps = .ok destination := by
  by_cases hp : p = .empty
  · simp [hp, Disk.follow]
  · rw [follow_eq hp]
    split <;> simp [*]

/-- A path that is followed starts in a directory. It has a step at least, and steps are only taken
from directories. -/
theorem isDirectory_origin (h : d.follow p = .ok (.found place)) :
    d.isDirectory (d.origin p) = true := by
  obtain ⟨-, -, hwalk⟩ := follow_eq_ok.mp h
  obtain ⟨first, later, hsteps⟩ := List.exists_cons_of_ne_nil p.steps_ne_nil
  rw [hsteps, linkLimit, walk, walkWith] at hwalk
  split at hwalk
  · cases hwalk
  · next hdirectory => simpa using hdirectory

/-- A path leads to a location, where the path without any text stands for the current directory. -/
def Leads (d : Disk) (p : Path) (location : Location) : Prop :=
  p = .empty ∧ location = d.here ∨ d.follow p = .ok (.found location)

/-- The same disk with another current directory. -/
def seenFrom (d : Disk) (location : Location) : Disk :=
  { d with here := location }

theorem walkWith_seenFrom : (d.seenFrom place).walkWith follow = d.walkWith follow := by
  funext location segments
  induction segments generalizing location with
  | nil => rfl
  | cons segment segments ih =>
    simp only [walkWith, ih]
    rfl

/-- A walk over links does not depend on the current directory. Targets of links start at the root
directory or where the link stands. -/
theorem walk_seenFrom (links : Nat) : (d.seenFrom place).walk links = d.walk links := by
  induction links with
  | zero => exact walkWith_seenFrom
  | succ links ih => rw [walk, walk, ih, walkWith_seenFrom]

/-- An absolute path leads to one place from everywhere. -/
theorem follow_seenFrom (hp : p.isAbsolute = true) : (d.seenFrom place).follow p = d.follow p := by
  rw [Disk.follow, Disk.follow, walk_seenFrom, hp]
  rfl

/-- The walk to a directory and on from there, without regard to a slash between the two. The slash
at the end of a directory is a step that stays. -/
theorem walk_join (hd : d.Plain) (hdir : d.follow dir = .ok (.found location))
    (hp : p.isAbsolute = false) :
    d.walk linkLimit (d.origin (dir / p)) (dir / p).steps =
      d.walk linkLimit location p.segments := by
  obtain ⟨hne, -, hwalk⟩ := follow_eq_ok.mp hdir
  obtain ⟨front, hsteps, hfront⟩ := Path.exists_steps_join hne hp
  have hwalkFront : d.walk linkLimit (d.origin dir) front = .ok (.found location) := by
    rcases hfront with hfront | hfront
    · rw [← hfront, hwalk]
    · rw [hfront] at hwalk
      obtain ⟨middle, hmiddle, hlast⟩ := exists_walkWith_of_append hd hwalk
      obtain ⟨next, hstep, hnext⟩ := exists_step_of_walkWith hd hlast
      rw [hstep.eq_of_counts rfl] at hnext
      exact hmiddle.trans hnext
  rw [origin, Path.isAbsolute_join hne hp, hsteps]
  exact walkWith_append hd hwalkFront p.segments

/-- A path that is seen from a directory leads where it leads once this is the current directory.
The path without any text is left out, as it leads nowhere by itself. -/
theorem follow_join (hd : d.Plain) (hdir : d.Leads dir location) (hp : p ≠ .empty) :
    d.follow (dir / p) = (d.seenFrom location).follow p := by
  cases habsolute : p.isAbsolute with
  | true =>
    rw [Path.join_of_isAbsolute habsolute dir, follow_seenFrom habsolute]
  | false =>
    rcases hdir with ⟨rfl, rfl⟩ | hdir
    · rw [Path.empty_join]
      rfl
    · obtain ⟨hne, hzero, -⟩ := follow_eq_ok.mp hdir
      have hjoin : dir / p ≠ .empty := by
        obtain ⟨front, htext, -⟩ := Path.text_join hne habsolute
        intro hempty
        simp [hempty, Path.empty] at htext
      have hzeros : '\x00' ∈ (dir / p).text.toList ↔ '\x00' ∈ p.text.toList := by
        rw [Path.mem_join (by decide) hne habsolute]
        exact or_iff_right hzero
      rw [follow_eq hjoin, follow_eq hp, walk_join hd hdir habsolute, walk_seenFrom, origin,
        Path.steps, habsolute]
      simp only [hzeros]
      rfl

/-- Seen from a directory, the path without any text leads to a directory. So it is never the name
of a file. -/
theorem isDirectory_of_follow_join_empty (hd : d.Plain) (hdir : d.Leads dir location)
    (h : d.follow (dir / .empty) = .ok (.found place)) : d.isDirectory place = true := by
  rcases hdir with ⟨rfl, rfl⟩ | hdir
  · rw [Path.empty_join] at h
    exact absurd rfl (follow_eq_ok.mp h).1
  · obtain ⟨-, -, hwalk⟩ := follow_eq_ok.mp h
    rw [walk_join hd hdir rfl] at hwalk
    obtain ⟨next, hstep, hnext⟩ := exists_step_of_walkWith hd hwalk
    rw [hstep.eq_of_counts rfl] at hnext
    cases hnext
    exact hstep.isDirectory

/-- Directories that lead to one location give every name of a file to the same file. -/
theorem follow_join_eq (hd : d.Plain) (hdir : d.Leads dir location) (hdir' : d.Leads dir' location)
    (h : d.follow (dir / p) = .ok (.found file)) (hfile : d.isDirectory file = false) :
    d.follow (dir' / p) = .ok (.found file) := by
  have hp : p ≠ .empty := by
    rintro rfl
    rw [isDirectory_of_follow_join_empty hd hdir h] at hfile
    cases hfile
  rw [follow_join hd hdir' hp, ← follow_join hd hdir hp, h]

/-- The directory of a path that leads to a file leads to the directory that holds the file. Without
links, the names of the path are the way that was taken. -/
theorem leads_directory (hd : d.Plain) (h : d.follow p = .ok (.found file))
    (hfile : d.isDirectory file = false) : d.Leads p.directory file.dropLast := by
  obtain ⟨hne, hzero, hwalk⟩ := follow_eq_ok.mp h
  obtain ⟨front, name, place, hnames, rfl, hplace, hfront⟩ :=
    exists_names_of_walkWith hd (isDirectory_origin h) hwalk hfile
  rw [Path.filter_steps] at hnames
  have hdirectory : p.directory.names = front := by
    rw [Path.names_directory, hnames, List.dropLast_concat]
  rw [List.dropLast_concat]
  by_cases hempty : p.directory = .empty
  · have hrelative := Path.isAbsolute_of_directory_eq_empty hempty (by simp [hnames])
    rw [hempty, Path.names_empty] at hdirectory
    subst hdirectory
    cases hfront
    exact .inl ⟨hempty, by simp [origin, hrelative]⟩
  · refine .inr (follow_eq_ok.mpr ⟨hempty, ?_, ?_⟩)
    · exact fun hmem => hzero (p.directory_isPrefix.subset hmem)
    · rw [origin, Path.isAbsolute_directory hempty]
      refine walkWith_of_filter hd ?_ hplace
      rw [Path.filter_steps, hdirectory]
      exact hfront

/-! ## Reading -/

/-- Where a file is, there is no directory. -/
theorem isDirectory_of_item? (h : d.item? file = some (.file content)) :
    d.isDirectory file = false := by
  rw [isDirectory, h]

/-- A path can be read when it is not too long and leads to a file that holds a text. Everything
else is one of the ways for reading to fail. -/
theorem read_eq_ok : d.read p = .ok text ↔ p.text.utf8ByteSize ≤ pathLimit ∧
    ∃ file content, d.follow p = .ok (.found file) ∧ d.item? file = some (.file content) ∧
      text? content = some text := by
  unfold Disk.read
  by_cases hzero : '\x00' ∈ p.text.toList
  · have hfollow : ∀ file, d.follow p ≠ .ok (.found file) :=
      fun file hfound => (follow_eq_ok.mp hfound).2.1 hzero
    simp [hzero, hfollow]
  · by_cases hlong : p.text.utf8ByteSize > pathLimit
    · simp [hzero, hlong, Nat.not_le.mpr hlong]
    · simp only [List.contains_iff_mem, hzero, hlong, if_false]
      cases hfollow : d.follow p with
      | error fault => simp [bind, Except.bind]
      | ok destination =>
        cases destination with
        | free location => simp [bind, Except.bind]
        | found file =>
          simp only [bind, Except.bind]
          cases hitem : d.item? file with
          | none => simp [hitem]
          | some item =>
            cases item with
            | file content => cases htext : text? content <;> simp_all
            | _ => simp [hitem]

/-! ## Writing files -/

/-- A disk with nothing on it is plain. -/
theorem plain_nil (here : Location) : Plain ⟨[], here⟩ where
  noLink location target h := by
    unfold item? at h
    split at h <;> cases h
  parent location h := by
    cases location with
    | nil => rfl
    | cons name location => cases h

/-- What is put at a location is there, and nothing changes elsewhere. The root directory cannot be
replaced. -/
theorem item?_put {item : Item} (hne : location ≠ []) (other : Location) :
    (d.put location item).item? other =
      if other = location then some item else d.item? other := by
  have hlookup : other ≠ location →
      (d.items.filter (·.1 != location)).lookup other = d.items.lookup other := by
    intro hother
    induction d.items with
    | nil => rfl
    | cons entry items ih =>
      by_cases hentry : entry.1 = location
      · rw [List.filter_cons_of_neg (by simp [hentry]), ih, List.lookup_cons, hentry,
          beq_false_of_ne hother]
      · rw [List.filter_cons_of_pos (by simp [hentry]), List.lookup_cons, List.lookup_cons, ih]
  unfold item? put
  by_cases hother : other = location
  · simp [hother, hne]
  · simp [hother, List.lookup_cons, beq_false_of_ne hother, hlookup hother]

namespace Plain

/-- A disk stays plain when something other than a link is put where no directory is, a directory
only into a directory. A directory that is replaced would leave what it holds without one. -/
theorem put (hd : d.Plain) {item : Item} (hlink : ∀ target, item ≠ .link target)
    (hplace : d.isDirectory location = false)
    (hparent : item = .directory → d.isDirectory location.dropLast = true) :
    (d.put location item).Plain := by
  have hne : location ≠ [] := by
    rintro rfl
    cases hplace
  -- All directories are still there.
  have hkept : ∀ other, d.isDirectory other = true →
      (d.put location item).isDirectory other = true := by
    intro other hother
    have hmoved : other ≠ location := by
      rintro rfl
      cases hplace.symm.trans hother
    rwa [isDirectory, item?_put hne, if_neg hmoved]
  constructor
  · intro other target hitem
    rw [item?_put hne] at hitem
    split at hitem
    · exact hlink target (Option.some.inj hitem)
    · exact hd.noLink other target hitem
  · intro other hother
    rw [isDirectory, item?_put hne] at hother
    by_cases hsame : other = location
    · subst hsame
      refine hkept _ (hparent ?_)
      cases item <;> simp_all
    · rw [if_neg hsame] at hother
      exact hkept _ (hd.parent other hother)

/-- A disk stays plain when something other than a link is put at a free name. Free names are in
directories, so the condition on directories is met. -/
theorem put_free (hd : d.Plain) (hfree : d.follow p = .ok (.free location)) {item : Item}
    (hlink : ∀ target, item ≠ .link target) : (d.put location item).Plain := by
  obtain ⟨-, -, hwalk⟩ := follow_eq_ok.mp hfree
  obtain ⟨hitem, hparent⟩ := free_of_walkWith hd hwalk
  exact hd.put hlink (by rw [isDirectory, hitem]) fun _ => hparent

/-- Making the directories on a path keeps a disk plain, step by step. -/
theorem makeDirectories (hd : d.Plain) (p : Path) : (d.makeDirectories p).Plain := by
  unfold Disk.makeDirectories
  generalize List.range p.segments.length = lengths
  induction lengths generalizing d with
  | nil => exact hd
  | cons n lengths ih =>
    refine ih ?_
    dsimp only
    split
    · next location hfree => exact hd.put_free hfree nofun
    · exact hd

/-- Writing a file keeps a disk plain. So plain disks are what hosts have that never make a link. -/
theorem writeFile (hd : d.Plain) (p : Path) (content : ByteArray) :
    (d.writeFile p content).Plain := by
  have hmade := hd.makeDirectories p.directory
  unfold Disk.writeFile
  generalize d.makeDirectories p.directory = made at hmade
  dsimp only
  split
  · next location hfree => exact hmade.put_free hfree nofun
  · next location _ =>
    split
    · exact hmade
    · next hplace => exact hmade.put nofun (Bool.eq_false_iff.mpr hplace) nofun
  · exact hmade

end Plain

end YamlWeave.Disk
