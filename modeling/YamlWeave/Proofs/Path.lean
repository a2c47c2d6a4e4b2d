import Mathlib.Data.List.DropRight
import YamlWeave.Path

/-!
# Names on paths

The **names** of a path are its segments that count. Its **steps** are all segments that are
followed from where the path starts, those that do not count included.

**The laws.** The directory of a path is spelled like the beginning of the path
(`directory_isPrefix`) and has its names but for the last (`names_directory`). A path that is seen
from a directory starts where the directory starts (`isAbsolute_join`), and takes the steps to the
directory and then its own (`exists_steps_join`). The last name of a path, as seen from the
directory of the path, has the components of the path (`EndsIn.components_join`).
-/

set_option autoImplicit false

namespace YamlWeave.Path

variable {p dir : Path}

/-! ## Segments -/

/-- A slash in front of a text puts an empty piece in front of its pieces. -/
theorem splitOn_slash (text : List Char) :
    ('/' :: text).splitOn '/' = [] :: text.splitOn '/' := by
  rw [List.splitOn_cons_eq_if_modifyHead, if_pos (beq_self_eq_true '/')]

/-- Any other character in front of a text goes into the first of its pieces. There is one, since a
text without characters still has an empty piece. -/
theorem exists_splitOn_cons {c : Char} (hc : c ≠ '/') (text : List Char) :
    ∃ first pieces, text.splitOn '/' = first :: pieces ∧
      (c :: text).splitOn '/' = (c :: first) :: pieces := by
  obtain ⟨first, pieces, htext⟩ := List.exists_cons_of_ne_nil (List.splitOn_ne_nil '/' text)
  refine ⟨first, pieces, htext, ?_⟩
  rw [List.splitOn_cons_eq_if_modifyHead, if_neg (by simpa using hc), htext, List.modifyHead_cons]

/-- No piece of a text that is cut at its slashes has a slash in it. This is what lets segments be
put together and cut again without loss (`segments_ofSegments`). -/
theorem slash_not_mem_of_mem_splitOn {text piece : List Char} (h : piece ∈ text.splitOn '/') :
    '/' ∉ piece := by
  induction text generalizing piece with
  | nil => simp_all
  | cons c text ih =>
    by_cases hc : c = '/'
    · subst hc
      rw [splitOn_slash] at h
      rcases List.mem_cons.mp h with rfl | h
      · exact List.not_mem_nil
      · exact ih h
    · obtain ⟨first, pieces, htext, hcons⟩ := exists_splitOn_cons hc text
      rw [hcons] at h
      rw [htext] at ih
      rcases List.mem_cons.mp h with rfl | h
      · exact List.not_mem_cons_of_ne_of_not_mem (Ne.symm hc) (ih List.mem_cons_self)
      · exact ih (List.mem_cons_of_mem first h)

/-- The characters of a text other than slashes are those of its pieces: cutting drops the slashes
and nothing else. -/
theorem mem_iff_exists_mem_splitOn {c : Char} (hc : c ≠ '/') (text : List Char) :
    c ∈ text ↔ ∃ piece ∈ text.splitOn '/', c ∈ piece := by
  induction text with
  | nil => simp
  | cons other text ih =>
    by_cases hother : other = '/'
    · subst hother
      rw [splitOn_slash, List.mem_cons, or_iff_right hc, ih]
      simp
    · obtain ⟨first, pieces, htext, hcons⟩ := exists_splitOn_cons hother text
      rw [hcons, List.mem_cons, ih, htext, List.exists_mem_cons_iff, List.exists_mem_cons_iff,
        List.mem_cons, or_assoc]

/-- A path is the path of its segments, so nothing of its spelling is lost when it is cut. -/
theorem ofSegments_segments (p : Path) : ofSegments p.segments = p := by
  simp [ofSegments, segments, Function.comp_def, List.intercalate_splitOn]

/-- Even the path without any text has a segment, an empty one. -/
theorem segments_ne_nil (p : Path) : p.segments ≠ [] := by
  simp [segments]

/-- A segment has no slash in it, as slashes are where a path is cut. -/
theorem slash_not_mem_of_mem_segments {segment : String} (h : segment ∈ p.segments) :
    '/' ∉ segment.toList := by
  obtain ⟨piece, hpiece, rfl⟩ := List.mem_map.mp h
  rw [String.toList_ofList]
  exact slash_not_mem_of_mem_splitOn hpiece

/-- Segments without slashes are those of their path. The path without segments is left out: its
text is empty, which is one empty segment. -/
theorem segments_ofSegments {segments : List String} (hne : segments ≠ [])
    (h : ∀ segment ∈ segments, '/' ∉ segment.toList) :
    (ofSegments segments).segments = segments := by
  have hcut : (['/'].intercalate (segments.map String.toList)).splitOn '/' =
      segments.map String.toList := by
    refine List.splitOn_intercalate '/' ?_ (by simpa using hne)
    intro piece hpiece
    obtain ⟨segment, hsegment, rfl⟩ := List.mem_map.mp hpiece
    exact h segment hsegment
  simp [Path.segments, ofSegments, hcut, Function.comp_def]

/-- The first pieces of a list make the beginning of its text. There has to be one, because without
any piece the slash in front of the others would be missing. -/
theorem intercalate_isPrefix {front : List (List Char)} (hne : front ≠ [])
    (rest : List (List Char)) :
    ['/'].intercalate front <+: ['/'].intercalate (front ++ rest) := by
  induction front with
  | nil => exact absurd rfl hne
  | cons piece front ih =>
    by_cases hfront : front = []
    · subst hfront
      rw [List.intercalate_singleton, List.singleton_append]
      cases rest with
      | nil => exact List.intercalate_singleton ▸ List.prefix_refl piece
      | cons other rest =>
        rw [List.intercalate_cons_cons, List.append_assoc]
        exact List.prefix_append _ _
    · have hall : front ++ rest ≠ [] := by simp [hfront]
      rw [List.cons_append, List.intercalate_cons_of_ne_nil hfront,
        List.intercalate_cons_of_ne_nil hall, List.prefix_append_right_inj]
      exact ih hfront

theorem exists_text_of_isAbsolute (h : p.isAbsolute = true) :
    ∃ later, p.text.toList = '/' :: later :=
  List.head?_eq_some_iff.mp (eq_of_beq h)

/-- The first segment of a path that starts at the root directory is empty. It is the piece in front
of the slash. -/
theorem segments_of_isAbsolute (h : p.isAbsolute = true) :
    p.segments = "" :: p.segments.tail := by
  obtain ⟨later, htext⟩ := exists_text_of_isAbsolute h
  rw [segments, htext, splitOn_slash]
  rfl

/-- A path whose first segment is empty starts at the root directory, or has no other segment. The
second case is the path without any text. -/
theorem eq_nil_of_segments_eq {later : List String} (h : p.segments = "" :: later)
    (hrelative : p.isAbsolute = false) : later = [] := by
  cases later with
  | nil => rfl
  | cons segment later =>
    have hp := ofSegments_segments p
    rw [h] at hp
    rw [← hp] at hrelative
    exact absurd hrelative (by simp [ofSegments, isAbsolute, List.intercalate_cons_cons])

/-! ## Steps and names -/

/-- The segments that are followed from where the path starts. -/
def steps (p : Path) : List String :=
  if p.isAbsolute then p.segments.tail else p.segments

/-- The segments that count. -/
def names (p : Path) : List String :=
  p.segments.filter counts

/-- Names are the same among all segments and among those that are followed: the segment that only
says where a path starts does not count. -/
theorem filter_steps (p : Path) : p.steps.filter counts = p.names := by
  unfold steps names
  split
  · next h =>
    conv_rhs => rw [segments_of_isAbsolute h]
    rfl
  · rfl

theorem names_empty : empty.names = [] := rfl

/-- There is a step at least. For the root directory alone it is an empty one, which leads nowhere
else. -/
theorem steps_ne_nil (p : Path) : p.steps ≠ [] := by
  unfold steps
  split
  · next h =>
    obtain ⟨later, htext⟩ := exists_text_of_isAbsolute h
    simp [segments, htext, splitOn_slash]
  · exact segments_ne_nil p

/-! ## Paths seen from a directory -/

/-- An absolute path is the same from every directory. -/
theorem join_of_isAbsolute (h : p.isAbsolute = true) (directory : Path) : directory / p = p := by
  show join directory p = p
  rw [join, h, Bool.true_or, if_pos rfl]

/-- From the path without any text, a path is seen as it is. This is how a file without a directory
finds its neighbours. -/
theorem empty_join (p : Path) : empty / p = p := by
  show join empty p = p
  simp [join]

/-- The text of a path that is seen from a directory: one slash is between the two. It is the one at
the end of the directory if there is one, so none is doubled. -/
theorem text_join (hdir : dir ≠ empty) (hp : p.isAbsolute = false) :
    ∃ front, (dir / p).text.toList = front ++ '/' :: p.text.toList ∧
      (dir.text.toList = front ∨ dir.text.toList = front ++ ['/']) := by
  show ∃ front, (join dir p).text.toList = _ ∧ _
  have hjoined : (p.isAbsolute || dir == empty) = false := by simp [hp, hdir]
  rw [join, hjoined]
  by_cases hlast : dir.text.toList.getLast? = some '/'
  · obtain ⟨front, hfront⟩ := List.getLast?_eq_some_iff.mp hlast
    exact ⟨front, by simp [hfront], .inr hfront⟩
  · exact ⟨dir.text.toList, by simp [hlast], .inl rfl⟩

theorem toList_ne_nil (hdir : dir ≠ empty) : dir.text.toList ≠ [] := by
  intro h
  have htext : dir.text = "" := by simpa using h
  exact hdir (congrArg Path.mk htext)

/-- A path that is seen from a directory starts where the directory starts. The two exceptions, an
absolute path and an empty directory, have laws of their own. -/
theorem isAbsolute_join (hdir : dir ≠ empty) (hp : p.isAbsolute = false) :
    (dir / p).isAbsolute = dir.isAbsolute := by
  obtain ⟨front, hjoin, hfront⟩ := text_join hdir hp
  have hne := toList_ne_nil hdir
  unfold isAbsolute
  rw [hjoin]
  cases front with
  | nil => simp_all
  | cons c front => rcases hfront with h | h <;> simp [h]

/-- From a directory with an absolute path, every path is absolute. Nothing is asked of the path,
which may be empty or absolute itself. -/
theorem isAbsolute_join_of_isAbsolute (hdir : dir.isAbsolute = true) (p : Path) :
    (dir / p).isAbsolute = true := by
  by_cases hp : p.isAbsolute = true
  · rwa [join_of_isAbsolute hp]
  · have hne : dir ≠ empty := by
      rintro rfl
      exact absurd hdir (by decide)
    rw [isAbsolute_join hne (Bool.eq_false_iff.mpr hp), hdir]

/-- A path that is seen from a directory has the segments of the directory, where a slash at the end
does not count, and then its own. -/
theorem exists_segments_join (hdir : dir ≠ empty) (hp : p.isAbsolute = false) :
    ∃ front, front ≠ [] ∧ (dir / p).segments = front ++ p.segments ∧
      (dir.segments = front ∨ dir.segments = front ++ [""]) := by
  obtain ⟨front, hjoin, hfront⟩ := text_join hdir hp
  refine ⟨(front.splitOn '/').map String.ofList, by simp, ?_, ?_⟩
  · rw [segments, hjoin, List.splitOn_append_cons_self, List.map_append, segments]
  · rcases hfront with h | h
    · exact .inl (by rw [segments, h])
    · exact .inr (by rw [segments, h, List.splitOn_append_cons_self, List.map_append]; rfl)

/-- A path that is seen from a directory takes the steps to the directory, where a slash at the end
does not count, and then its own. Walks over a disk are taken apart at this place. -/
theorem exists_steps_join (hdir : dir ≠ empty) (hp : p.isAbsolute = false) :
    ∃ front, (dir / p).steps = front ++ p.segments ∧
      (dir.steps = front ∨ dir.steps = front ++ [""]) := by
  obtain ⟨front, hne, hsegments, hdirSegments⟩ := exists_segments_join hdir hp
  unfold steps
  rw [isAbsolute_join hdir hp, hsegments]
  cases dir.isAbsolute with
  | false => exact ⟨_, rfl, hdirSegments⟩
  | true =>
    refine ⟨front.tail, List.tail_append_of_ne_nil hne, ?_⟩
    rcases hdirSegments with h | h
    · exact .inl (by rw [h]; rfl)
    · exact .inr (by rw [h]; exact List.tail_append_of_ne_nil hne)

/-- A path that is seen from a directory has the names of the directory and then its own. Two dots
are names here, since they cannot be taken back before links are known. -/
theorem names_join (hp : p.isAbsolute = false) : (dir / p).names = dir.names ++ p.names := by
  by_cases hdir : dir = empty
  · rw [hdir, empty_join, names_empty, List.nil_append]
  · obtain ⟨front, -, hsegments, hfront⟩ := exists_segments_join hdir hp
    have hdirNames : dir.names = front.filter counts := by
      rcases hfront with h | h
      · rw [names, h]
      · rw [names, h, List.filter_append]
        exact List.append_nil _
    rw [names, hsegments, List.filter_append, hdirNames, names]

/-- A path that is seen from a directory begins with the same segment as the directory. It matters
for a dot at the beginning, which is a component of its own. -/
theorem head?_segments_join (hdir : dir ≠ empty) (hp : p.isAbsolute = false) :
    (dir / p).segments.head? = dir.segments.head? := by
  obtain ⟨front, hne, hsegments, hfront⟩ := exists_segments_join hdir hp
  obtain ⟨first, later, rfl⟩ := List.exists_cons_of_ne_nil hne
  rcases hfront with h | h <;> rw [hsegments, h] <;> rfl

/-- The characters of a path that is seen from a directory are those of the two, and perhaps a
slash. A zero, which no path may hold, comes from the one or the other. -/
theorem mem_join {c : Char} (hc : c ≠ '/') (hdir : dir ≠ empty) (hp : p.isAbsolute = false) :
    c ∈ (dir / p).text.toList ↔ c ∈ dir.text.toList ∨ c ∈ p.text.toList := by
  obtain ⟨front, hjoin, h | h⟩ := text_join hdir hp <;> simp [hjoin, h, hc]

/-! ## The directory of a path -/

theorem trimmed_eq (segments : List String) : trimmed segments = segments.rdropWhile (!counts ·) :=
  rfl

theorem trimmed_isPrefix (segments : List String) : trimmed segments <+: segments :=
  trimmed_eq segments ▸ List.rdropWhile_prefix _ segments

/-- Trimming takes no names away. -/
theorem filter_trimmed (segments : List String) :
    (trimmed segments).filter counts = segments.filter counts := by
  have hidle : (segments.rtakeWhile (!counts ·)).filter counts = [] := by
    refine List.filter_eq_nil_iff.mpr fun segment hmem => ?_
    simpa using List.mem_rtakeWhile_imp hmem
  conv_rhs => rw [← List.rdropWhile_append_rtakeWhile (p := (!counts ·)) (l := segments),
    List.filter_append, hidle, List.append_nil]
  rfl

/-- Trimmed segments end with one that counts. This one is cut off to get to the directory. -/
theorem exists_trimmed_eq {segments : List String} (h : trimmed segments ≠ []) :
    ∃ front last, trimmed segments = front ++ [last] ∧ counts last = true := by
  have hlast := List.rdropWhile_last_not (!counts ·) segments h
  exact ⟨_, _, (List.dropLast_append_getLast h).symm, by simpa [← trimmed_eq] using hlast⟩

section Segments

variable {first : String} {later : List String}

/-- The names of a path, with the segments behind the first one trimmed. -/
theorem names_of_segments (h : p.segments = first :: later) :
    p.names = [first].filter counts ++ (trimmed later).filter counts := by
  rw [names, h, filter_trimmed, ← List.filter_append]
  rfl

/-- The directory of a path: the segments behind the first one are trimmed, the last one left is cut
off, and what is before it is trimmed again. -/
theorem directory_of_segments (h : p.segments = first :: later) :
    p.directory = if (trimmed later).isEmpty then empty
      else if p.isAbsolute && (trimmed (trimmed later).dropLast).isEmpty then root
      else ofSegments (first :: trimmed (trimmed later).dropLast) := by
  unfold directory parent?
  rw [h]
  dsimp only
  split
  · split <;> rfl
  · split <;> rfl

end Segments

/-- What the directory of a path may be. -/
inductive DirectoryCase (p : Path) : Prop
  | empty (h : p.directory = empty) (hnames : p.names.dropLast = [])
      (hfirst : p.names ≠ [] → p.segments.head?.any counts = true)
  | root (h : p.directory = root) (hnames : p.names.dropLast = []) (habsolute : p.isAbsolute = true)
  /-- The path is cut off behind one of its segments. -/
  | front {kept : List String} (h : p.directory = ofSegments kept) (hne : kept ≠ [])
      (hempty : kept ≠ [""]) (hnames : p.names.dropLast = kept.filter counts)
      (hbegins : kept <+: p.segments)

/-- The cases of `DirectoryCase` leave no path out. The proof goes by what is left after each
trimming, and every later law about directories goes by the cases instead. -/
theorem directory_cases (p : Path) : p.DirectoryCase := by
  obtain ⟨first, later, hsegments⟩ := List.exists_cons_of_ne_nil p.segments_ne_nil
  have hnames := names_of_segments hsegments
  have hdirectory := directory_of_segments hsegments
  have hfirst : p.isAbsolute = true → first = "" := fun h =>
    (List.cons.inj (hsegments.symm.trans (segments_of_isAbsolute h))).1
  by_cases hlater : trimmed later = []
  · rw [hlater] at hnames hdirectory
    refine .empty hdirectory ?_ fun hne => ?_
    · rw [hnames]
      cases h : counts first <;> simp [h]
    · rw [hnames] at hne
      rw [hsegments]
      cases h : counts first with
      | false => simp [h] at hne
      | true => exact h
  · obtain ⟨front, last, htrimmed, hlast⟩ := exists_trimmed_eq hlater
    have hfront : p.names.dropLast = (first :: trimmed front).filter counts := by
      rw [hnames, htrimmed, List.filter_append, ← List.append_assoc, List.filter_cons_of_pos hlast,
        List.filter_nil, List.dropLast_concat, ← filter_trimmed front, ← List.filter_append]
      rfl
    rw [htrimmed, List.dropLast_concat] at hdirectory
    by_cases hroot : p.isAbsolute = true ∧ trimmed front = []
    · refine .root ?_ ?_ hroot.1
      · rw [hdirectory]
        simp [hroot]
      · rw [hfront, hroot.2, hfirst hroot.1]
        rfl
    · have hkept : p.directory = ofSegments (first :: trimmed front) := by
        rw [hdirectory]
        simp [hroot]
      have hbegins : first :: trimmed front <+: p.segments := by
        rw [hsegments, List.cons_prefix_cons]
        refine ⟨rfl, (trimmed_isPrefix front).trans (.trans ?_ (trimmed_isPrefix later))⟩
        exact htrimmed ▸ List.prefix_append front [last]
      refine .front hkept (List.cons_ne_nil _ _) ?_ hfront hbegins
      intro hempty
      obtain ⟨rfl, hfrontEmpty⟩ := List.cons.inj hempty
      have hrelative : p.isAbsolute = false := by
        by_contra habsolute
        exact hroot ⟨Bool.not_eq_false _ ▸ habsolute, hfrontEmpty⟩
      rw [eq_nil_of_segments_eq hsegments hrelative] at hlater
      exact hlater rfl

/-- The first segments of a path are those of a path of their own, as none of them has a slash. -/
theorem segments_ofSegments_of_isPrefix {kept : List String} (hne : kept ≠ [])
    (hbegins : kept <+: p.segments) : (ofSegments kept).segments = kept :=
  segments_ofSegments hne fun _ hmem => slash_not_mem_of_mem_segments (hbegins.subset hmem)

/-- The directory of a path has the names of the path but for the last. This holds of all paths,
those that end in two dots included: the dots are dropped like any name. -/
theorem names_directory (p : Path) : p.directory.names = p.names.dropLast := by
  cases p.directory_cases with
  | empty h hnames _ => rw [h, hnames, names_empty]
  | root h hnames _ =>
    rw [h, hnames]
    rfl
  | front h hne _ hnames hbegins =>
    rw [h, hnames, names, segments_ofSegments_of_isPrefix hne hbegins]

/-- The directory of a path is spelled like the beginning of the path. So whatever holds of the
characters of a path holds of those of its directory. -/
theorem directory_isPrefix (p : Path) : p.directory.text.toList <+: p.text.toList := by
  cases p.directory_cases with
  | empty h _ _ =>
    rw [h]
    exact List.nil_prefix
  | root h _ habsolute =>
    obtain ⟨later, htext⟩ := exists_text_of_isAbsolute habsolute
    rw [h, htext]
    exact ⟨later, rfl⟩
  | @front kept h hne _ _ hbegins =>
    obtain ⟨rest, hrest⟩ := hbegins
    have hp : p.text.toList =
        ['/'].intercalate (kept.map String.toList ++ rest.map String.toList) := by
      rw [← List.map_append, hrest]
      conv_lhs => rw [← ofSegments_segments p]
      exact String.toList_ofList
    rw [h, hp, ofSegments, String.toList_ofList]
    exact intercalate_isPrefix (by simpa using hne) _

/-- A path without a directory begins with its name, where it has one. A dot in front would be left
as the directory. -/
theorem counts_head_of_directory_eq_empty (h : p.directory = empty) (hnames : p.names ≠ []) :
    p.segments.head?.any counts = true := by
  cases p.directory_cases with
  | empty _ _ hfirst => exact hfirst hnames
  | root hroot _ _ =>
    rw [h] at hroot
    exact absurd hroot (by decide)
  | front hkept hne hempty _ hbegins =>
    have hsegments := segments_ofSegments_of_isPrefix hne hbegins
    rw [← hkept, h] at hsegments
    exact absurd hsegments.symm hempty

/-- A path with a name and without a directory is relative: for a path that starts at the root
directory, at least the slash would be left. -/
theorem isAbsolute_of_directory_eq_empty (h : p.directory = empty) (hnames : p.names ≠ []) :
    p.isAbsolute = false := by
  by_contra habsolute
  have hcounts := counts_head_of_directory_eq_empty h hnames
  rw [segments_of_isAbsolute (Bool.not_eq_false _ ▸ habsolute)] at hcounts
  cases hcounts

/-- The directory of a path starts where the path starts, unless it has no text. Then it is relative
whatever the path is. -/
theorem isAbsolute_directory (h : p.directory ≠ empty) :
    p.directory.isAbsolute = p.isAbsolute := by
  obtain ⟨rest, hrest⟩ := p.directory_isPrefix
  obtain ⟨c, later, htext⟩ := List.exists_cons_of_ne_nil (toList_ne_nil h)
  rw [isAbsolute, isAbsolute, ← hrest, htext]
  rfl

/-- The directory of an absolute path with a name is absolute. The name is needed, because the root
directory has no directory above it and is given an empty one. -/
theorem isAbsolute_directory_of_names (h : p.isAbsolute = true) (hnames : p.names ≠ []) :
    p.directory.isAbsolute = true := by
  have hne : p.directory ≠ empty := by
    intro hempty
    rw [isAbsolute_of_directory_eq_empty hempty hnames] at h
    cases h
  rw [isAbsolute_directory hne, h]

/-! ## Components -/

/-- Where a path starts, as far as its components tell. -/
def start (p : Path) : List Component :=
  if p.isAbsolute then [.root] else if p.segments.head? = some "." then [.here] else []

/-- The components of a path are its names, behind where it starts. All that is known of components
follows from this equation. -/
theorem components_eq (p : Path) : p.components = p.start ++ p.names.map .name := by
  obtain ⟨first, later, hsegments⟩ := List.exists_cons_of_ne_nil p.segments_ne_nil
  have hnames : p.names = [first].filter counts ++ later.filter counts := by
    rw [names, hsegments, ← List.filter_append]
    rfl
  have hcomponents : p.components = p.leading first ++ (later.filter counts).map .name := by
    rw [components, hsegments]
  rw [hcomponents, hnames, leading, start, hsegments]
  cases habsolute : p.isAbsolute with
  | true =>
    obtain ⟨rfl, -⟩ := List.cons.inj (hsegments.symm.trans (segments_of_isAbsolute habsolute))
    rfl
  | false =>
    by_cases hempty : first = ""
    · subst hempty
      rfl
    · by_cases hdot : first = "."
      · subst hdot
        rfl
      · have hcounts : counts first = true := by simp [counts, hempty, hdot]
        simp [hempty, hdot, hcounts]

/-- The components of an absolute path are the root directory and the names. No relative path has
these components. -/
theorem components_eq_root_iff {names : List String} :
    p.components = .root :: names.map .name ↔ p.isAbsolute = true ∧ p.names = names := by
  have hinj : Function.Injective Component.name := fun _ _ h => Component.name.inj h
  rw [components_eq, start]
  cases p.isAbsolute with
  | true =>
    rw [if_pos rfl, List.singleton_append, List.cons.injEq,
      (List.map_injective_iff.mpr hinj).eq_iff]
    simp
  | false =>
    -- No component of a relative path is the root directory.
    refine iff_of_false (fun h => ?_) (fun h => Bool.false_ne_true h.1)
    have hroot : Component.root ∈ Component.root :: names.map .name := List.mem_cons_self
    rw [← h, if_neg Bool.false_ne_true] at hroot
    split at hroot <;> simp at hroot

/-- Whether a path ends in a name: neither a slash nor a dot stands behind it. -/
def endsInName (p : Path) : Bool :=
  p.segments.getLast?.any counts

/-- A path ends in this name. -/
structure EndsIn (p : Path) (name : String) : Prop where
  last : p.segments.getLast? = some name
  counts : counts name = true

/-- The last step of a path is its last segment. So a walk ends on the segment that decides whether
a slash or a dot stands behind the last name. -/
theorem getLast?_steps (p : Path) : p.steps.getLast? = p.segments.getLast? := by
  have hne := p.steps_ne_nil
  revert hne
  unfold steps
  split
  · next habsolute =>
    intro hne
    conv_rhs => rw [segments_of_isAbsolute habsolute]
    obtain ⟨step, later, hsteps⟩ := List.exists_cons_of_ne_nil hne
    rw [hsteps, List.getLast?_cons_cons]
  · exact fun _ => rfl

/-! ## Characters -/

/-- The characters of a path that are neither slashes nor dots are those of its names: the segments
that do not count have none but dots. -/
theorem mem_text_iff {c : Char} (hslash : c ≠ '/') (hdot : c ≠ '.') :
    c ∈ p.text.toList ↔ ∃ name ∈ p.names, c ∈ name.toList := by
  have hcounts : ∀ segment, c ∈ segment.toList → counts segment = true := by
    intro segment hmem
    rw [counts, Bool.and_eq_true, bne_iff_ne, bne_iff_ne]
    constructor
    · rintro rfl
      exact absurd hmem List.not_mem_nil
    · rintro rfl
      exact hdot (List.mem_singleton.mp hmem)
  have hsegments : c ∈ p.text.toList ↔ ∃ segment ∈ p.segments, c ∈ segment.toList := by
    rw [mem_iff_exists_mem_splitOn hslash, segments]
    simp only [List.mem_map, exists_exists_and_eq_and, String.toList_ofList]
  rw [hsegments, names]
  simp only [List.mem_filter]
  exact exists_congr fun segment =>
    ⟨fun ⟨hsegment, hmem⟩ => ⟨⟨hsegment, hcounts segment hmem⟩, hmem⟩,
      fun ⟨⟨hsegment, _⟩, hmem⟩ => ⟨hsegment, hmem⟩⟩

/-! ## The last name of a path, as seen from its directory -/

/-- The directory of a path begins with the same segment as the path, unless it has no text. With
`head?_segments_join` the two ends of taking a path apart and putting it together meet. -/
theorem head?_segments_directory (h : p.directory ≠ empty) :
    p.directory.segments.head? = p.segments.head? := by
  cases p.directory_cases with
  | empty hempty _ _ => exact absurd hempty h
  | root hroot _ habsolute =>
    rw [hroot, segments_of_isAbsolute habsolute]
    rfl
  | @front kept hkept hne _ _ hbegins =>
    obtain ⟨rest, hrest⟩ := hbegins
    rw [hkept, segments_ofSegments_of_isPrefix hne ⟨rest, hrest⟩, ← hrest]
    exact (List.head?_append_of_ne_nil _ hne).symm

namespace EndsIn

variable {name : String}

theorem segments_name (h : p.EndsIn name) : (Path.mk name).segments = [name] := by
  have hslash := slash_not_mem_of_mem_segments (List.mem_of_getLast? h.last)
  rw [segments, List.splitOn_eq_singleton hslash]
  simp

theorem isAbsolute_name (h : p.EndsIn name) : (Path.mk name).isAbsolute = false := by
  by_contra habsolute
  have hsegments := segments_of_isAbsolute (Bool.not_eq_false _ ▸ habsolute)
  obtain ⟨rfl, -⟩ := List.cons.inj (h.segments_name.symm.trans hsegments)
  exact absurd h.counts (by decide)

theorem names_name (h : p.EndsIn name) : (Path.mk name).names = [name] := by
  rw [names, h.segments_name, List.filter_cons_of_pos h.counts, List.filter_nil]

/-- The last segment of a path that ends in a name is the last one of its names. Paths with a slash
or a dot at the end are excluded. -/
theorem names_eq (h : p.EndsIn name) : p.names = p.names.dropLast ++ [name] := by
  obtain ⟨front, hfront⟩ := List.getLast?_eq_some_iff.mp h.last
  rw [names, hfront, List.filter_append, List.filter_cons_of_pos h.counts, List.filter_nil,
    List.dropLast_concat]

theorem getLast?_components (h : p.EndsIn name) :
    p.components.getLast? = some (.name name) := by
  rw [components_eq, h.names_eq, List.map_append, ← List.append_assoc]
  exact List.getLast?_concat

theorem names_ne_nil (h : p.EndsIn name) : p.names ≠ [] := by
  rw [h.names_eq]
  exact List.concat_ne_nil _ _

/-- The last name, as seen from the directory of the path, has the names of the path. -/
theorem names_join (h : p.EndsIn name) : (p.directory / Path.mk name).names = p.names := by
  rw [Path.names_join h.isAbsolute_name, names_directory, h.names_name, ← h.names_eq]

/-- It starts at the root directory exactly when the path does, be there a directory or not. -/
theorem isAbsolute_join (h : p.EndsIn name) :
    (p.directory / Path.mk name).isAbsolute = p.isAbsolute := by
  by_cases hdir : p.directory = empty
  · rw [hdir, empty_join, h.isAbsolute_name,
      isAbsolute_of_directory_eq_empty hdir h.names_ne_nil]
  · rw [Path.isAbsolute_join hdir h.isAbsolute_name, isAbsolute_directory hdir]

/-- It ends in the name again, so nothing stands behind it. -/
theorem endsIn_join (h : p.EndsIn name) : (p.directory / Path.mk name).EndsIn name where
  last := by
    by_cases hdir : p.directory = empty
    · rw [hdir, empty_join, h.segments_name]
      rfl
    · obtain ⟨front, -, hsegments, -⟩ := exists_segments_join hdir h.isAbsolute_name
      rw [hsegments, h.segments_name, List.getLast?_concat]
  counts := h.counts

/-- The last name, as seen from the directory of the path, starts where the path starts. The one
thing that could get lost is a dot in front, and a dot that is left as the directory is put back. -/
theorem start_join (h : p.EndsIn name) : (p.directory / Path.mk name).start = p.start := by
  rw [start, start, h.isAbsolute_join]
  by_cases hdir : p.directory = empty
  · -- Neither the name nor the path begins with a dot.
    have hname : some name ≠ some "." := by
      rintro ⟨⟩
      exact absurd h.counts (by decide)
    have hp : p.segments.head? ≠ some "." := by
      intro hdot
      have hcounts := counts_head_of_directory_eq_empty hdir h.names_ne_nil
      rw [hdot] at hcounts
      exact absurd hcounts (by decide)
    rw [hdir, empty_join, h.segments_name, List.head?_cons, if_neg hname, if_neg hp]
  · rw [head?_segments_join hdir h.isAbsolute_name, head?_segments_directory hdir]

/-- The last name, as seen from the directory of the path, has the components of the path. The text
may be another one, since slashes and dots between names are not put back. -/
theorem components_join (h : p.EndsIn name) :
    (p.directory / Path.mk name).components = p.components := by
  rw [components_eq, components_eq, h.start_join, h.names_join]

/-- The spelling may become a plainer one. -/
example : (Path.mk "f").directory / Path.mk "f" = ⟨"f"⟩ ∧
    (Path.mk "./f").directory / Path.mk "f" = ⟨"./f"⟩ ∧
    (Path.mk "//d//./f").directory / Path.mk "f" = ⟨"//d/f"⟩ := by
  decide +kernel

end EndsIn

end YamlWeave.Path
