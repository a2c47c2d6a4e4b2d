import YamlWeave.Proofs.World.Canonical

/-!
# Spellings that lead to the same place

Where segments lead does not depend on those in the middle that do not count, links or not
(`walk_thinned`). Only the last segment counts in any case: a slash behind a name asks for a
directory. So two paths that start alike, have the same names and end in a name lead to the same
place (`follow_eq_of_names`).

A path that leads to a file ends in a name (`exists_endsIn_of_follow`), so it can be told apart from
its directory.
-/

set_option autoImplicit false

namespace YamlWeave

namespace Path

variable {segment : String} {segments rest : List String}

/-- Segments without those that do not count, but with the last one in any case. -/
def thinned (segments : List String) : List String :=
  segments.dropLast.filter counts ++ segments.getLast?.toList

/-- All segments but the last one are thinned by whether they count. This is the one equation that
the other laws are proved by. -/
theorem thinned_concat (front : List String) (last : String) :
    thinned (front ++ [last]) = front.filter counts ++ [last] := by
  rw [thinned, List.dropLast_concat, List.getLast?_concat, Option.toList_some]

theorem thinned_eq_nil_iff : thinned segments = [] ↔ segments = [] := by
  rcases segments.eq_nil_or_concat' with rfl | ⟨front, last, rfl⟩
  · exact iff_of_true rfl rfl
  · rw [thinned_concat]
    exact iff_of_false (List.concat_ne_nil _ _) (List.concat_ne_nil _ _)

/-- Segments that count stay, those in the middle that do not are left out. The last one is
excluded, since it stays in any case. -/
theorem thinned_cons (hrest : rest ≠ []) : thinned (segment :: rest) =
    if counts segment then segment :: thinned rest else thinned rest := by
  obtain ⟨front, last, rfl⟩ := rest.eq_nil_or_concat'.resolve_left hrest
  rw [← List.cons_append, thinned_concat, thinned_concat, List.filter_cons]
  split <;> rfl

/-- Thinning what stands behind other segments beforehand changes nothing. Links put their target in
front of what is left of a path, so a walk over links meets this. -/
theorem thinned_append_thinned (front : List String) :
    thinned (front ++ thinned rest) = thinned (front ++ rest) := by
  rcases rest.eq_nil_or_concat' with rfl | ⟨middle, last, rfl⟩
  · rfl
  · rw [thinned_concat, ← List.append_assoc, ← List.append_assoc, thinned_concat, thinned_concat,
      List.filter_append, List.filter_append, List.filter_filter]
    simp only [Bool.and_self]

/-- Segments that end in a name are thinned to those that count. -/
theorem thinned_of_getLast? (hlast : segments.getLast? = some segment)
    (hcounts : counts segment = true) : thinned segments = segments.filter counts := by
  obtain ⟨front, rfl⟩ := List.getLast?_eq_some_iff.mp hlast
  rw [thinned_concat, List.filter_append, List.filter_cons_of_pos hcounts, List.filter_nil]

/-- The steps of a path that ends in a name are thinned to its names. -/
theorem EndsIn.thinned_steps {p : Path} {name : String} (h : p.EndsIn name) :
    thinned p.steps = p.names := by
  rw [thinned_of_getLast? (p.getLast?_steps.trans h.last) h.counts, filter_steps]

end Path

namespace Disk

variable {d : Disk} {follow : Location → List String → Except ReadFault Destination}
  {location place : Location} {segments : List String} {p q : Path} {links : Nat}

/-! ## Segments that do not count -/

/-- Where segments lead does not depend on those in the middle that do not count, where it does not
behind links. A segment at the end matters even if it does not count: behind a file it leads
nowhere. -/
theorem walkWith_thinned
    (hfollow : ∀ location segments,
      follow location (Path.thinned segments) = follow location segments)
    (location : Location) (segments : List String) :
    d.walkWith follow location (Path.thinned segments) = d.walkWith follow location segments := by
  induction segments generalizing location with
  | nil => rfl
  | cons segment rest ih =>
    by_cases hrest : rest = []
    · subst hrest
      rfl
    · have hbehind : ∀ location front, follow location (front ++ Path.thinned rest) =
          follow location (front ++ rest) := by
        intro location front
        rw [← hfollow location (front ++ Path.thinned rest), Path.thinned_append_thinned, hfollow]
      have hempty : (Path.thinned rest).isEmpty = rest.isEmpty := by
        rw [Bool.eq_iff_iff, List.isEmpty_iff, List.isEmpty_iff, Path.thinned_eq_nil_iff]
      rw [Path.thinned_cons hrest]
      split
      · simp only [walkWith, hempty, hbehind, ih]
      · next hcounts =>
        rw [ih]
        cases hdirectory : d.isDirectory location with
        | true =>
          have hitem := item?_of_isDirectory hdirectory
          rw [walkWith_of_step_of_not_link (.stay hdirectory (Bool.eq_false_iff.mpr hcounts))
            (by simp [hitem])]
        | false =>
          rw [walkWith_of_not_directory hdirectory hrest,
            walkWith_of_not_directory hdirectory (List.cons_ne_nil _ _)]

/-- Where segments lead does not depend on those in the middle that do not count. The induction is
on the links that may still be followed. -/
theorem walk_thinned (d : Disk) (links : Nat) (location : Location) (segments : List String) :
    d.walk links location (Path.thinned segments) = d.walk links location segments := by
  induction links generalizing location segments with
  | zero => exact walkWith_thinned (fun _ _ => rfl) location segments
  | succ links ih => exact walkWith_thinned ih location segments

/-- Paths that start alike, have the same names and end in a name lead to the same place. Links may
be on the way, for both paths come to them with the same names left. -/
theorem follow_eq_of_names {name other : String} (hp : p.EndsIn name) (hq : q.EndsIn other)
    (habsolute : q.isAbsolute = p.isAbsolute) (hnames : q.names = p.names) :
    d.follow q = d.follow p := by
  have hne {p : Path} {name : String} (h : p.EndsIn name) : p ≠ .empty := by
    rintro rfl
    exact h.names_ne_nil rfl
  have hzero : '\x00' ∈ q.text.toList ↔ '\x00' ∈ p.text.toList := by
    rw [Path.mem_text_iff (by decide) (by decide), Path.mem_text_iff (by decide) (by decide),
      hnames]
  have hthinned : Path.thinned q.steps = Path.thinned p.steps := by
    rw [hq.thinned_steps, hp.thinned_steps, hnames]
  have horigin : d.origin q = d.origin p := by rw [origin, origin, habsolute]
  rw [follow_eq (hne hq), follow_eq (hne hp), horigin, ← walk_thinned d linkLimit _ q.steps,
    hthinned, walk_thinned]
  simp only [hzero]

theorem canonical?_eq_of_names {name other : String} (hp : p.EndsIn name) (hq : q.EndsIn other)
    (habsolute : q.isAbsolute = p.isAbsolute) (hnames : q.names = p.names) :
    d.canonical? q = d.canonical? p := by
  rw [canonical?, canonical?, follow_eq_of_names hp hq habsolute hnames]

/-! ## Paths to files -/

/-- Segments end in a name that does not lead up. -/
def LastNamed (segments : List String) : Prop :=
  ∃ name, segments.getLast? = some name ∧ Path.counts name = true ∧ name ≠ ".."

theorem lastNamed_append {front rest : List String} (hrest : rest ≠ []) :
    LastNamed (front ++ rest) ↔ LastNamed rest := by
  rw [LastNamed, LastNamed, List.getLast?_append_of_ne_nil front hrest]

/-- Where something is behind a segment, this is what ends in a name. -/
theorem lastNamed_cons {segment : String} {rest : List String}
    (hlater : rest ≠ [] → LastNamed rest)
    (hnil : rest = [] → Path.counts segment = true ∧ segment ≠ "..") :
    LastNamed (segment :: rest) := by
  by_cases hrest : rest = []
  · subst hrest
    exact ⟨segment, rfl, hnil rfl⟩
  · show LastNamed ([segment] ++ rest)
    exact (lastNamed_append hrest).mpr (hlater hrest)

/-- Segments that lead to a file end in a name. Two dots lead to a directory, and so does every
segment that does not count, as it has to be followed from one. -/
theorem WellFormed.lastNamed_of_walkWith (hd : d.WellFormed)
    (hfollow : ∀ {location segments}, segments ≠ [] →
      follow location segments = .ok (.found place) → LastNamed segments)
    (hplace : d.isDirectory place = false) (hne : segments ≠ [])
    (h : d.walkWith follow location segments = .ok (.found place)) : LastNamed segments := by
  have hname {segment : String} (hcounts : ¬ (segment == "" || segment == ".") = true)
      (hup : ¬ (segment == "..") = true) : Path.counts segment = true ∧ segment ≠ ".." := by
    simpa [counts_eq_true] using And.intro hcounts hup
  have hbehind {location : Location} {front rest : List String}
      (h : follow location (front ++ rest) = .ok (.found place)) (hrest : rest ≠ []) :
      LastNamed rest := by
    refine (lastNamed_append hrest).mp (hfollow ?_ h)
    exact List.append_ne_nil_of_right_ne_nil front hrest
  fun_induction d.walkWith follow location segments with
  | case1 => exact absurd rfl hne
  -- The segment does not count.
  | case3 location segment rest hdirectory hidle ih =>
    refine lastNamed_cons (fun hrest => ih hrest h) ?_
    rintro rfl
    cases h
    exact absurd hplace (by simpa using hdirectory)
  -- The segment leads up.
  | case4 location segment rest hdirectory _ _ ih =>
    refine lastNamed_cons (fun hrest => ih hrest h) ?_
    rintro rfl
    cases h
    have hitem := item?_of_isDirectory (by simpa using hdirectory)
    exact absurd hplace (by simp [hd.isDirectory_dropLast hitem])
  -- The segment is a link.
  | case8 location segment rest _ hcounts hup =>
    exact lastNamed_cons (hbehind h) fun _ => hname hcounts hup
  | case9 location segment rest _ hcounts hup =>
    exact lastNamed_cons (hbehind h) fun _ => hname hcounts hup
  -- The segment is a file or a directory.
  | case10 location segment rest _ hcounts hup _ next item _ hitem ih =>
    exact lastNamed_cons (fun hrest => ih hrest h) fun _ => hname hcounts hup
  -- The walk finds nothing.
  | _ => cases h

/-- Segments that lead over links to a place that is no directory end in a name. Targets of links do
so too when nothing is behind the link. -/
theorem WellFormed.lastNamed_of_walk (hd : d.WellFormed) (hplace : d.isDirectory place = false)
    (hne : segments ≠ []) (h : d.walk links location segments = .ok (.found place)) :
    LastNamed segments := by
  induction links generalizing location segments with
  | zero => exact hd.lastNamed_of_walkWith (fun _ hlink => by cases hlink) hplace hne h
  | succ links ih => exact hd.lastNamed_of_walkWith ih hplace hne h

/-- A path that leads to a file ends in a name. So it has a directory and a name to be seen from
there. -/
theorem WellFormed.exists_endsIn_of_follow (hd : d.WellFormed)
    (h : d.follow p = .ok (.found place)) (hplace : d.isDirectory place = false) :
    ∃ name, p.EndsIn name ∧ name ≠ ".." := by
  obtain ⟨name, hlast, hcounts, hup⟩ :=
    hd.lastNamed_of_walk hplace p.steps_ne_nil (follow_eq_ok.mp h).2.2
  exact ⟨name, ⟨p.getLast?_steps.symm.trans hlast, hcounts⟩, hup⟩

end Disk

end YamlWeave
