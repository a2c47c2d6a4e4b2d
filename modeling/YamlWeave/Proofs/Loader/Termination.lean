import Mathlib.Data.Set.Card
import YamlWeave.Proofs.Loader.Documents

/-!
# Loading ends

A load calls loads of included files, and these call more of them, as the texts of files say. What
bounds this is the stack of open files. Its entries are distinct and name files that can be read
(`Loader.Sound`): entering a file keeps this (`Sound.enter`), so it holds at every moment of a load
that starts with nothing open (`sound_of_nested`). There are finitely many files that can be read,
so neither the stack nor the nesting of calls outgrows them.

`Loader.Loads` says without any budget what it takes for a load to come to an end, and how deeply
its calls are nested. It has one outcome at most, the one that `Loader.loadFile` computes.
-/

set_option autoImplicit false

namespace YamlWeave

theorem Path.sameAs_comm (p q : Path) : p.sameAs q = q.sameAs p := by
  rw [Path.sameAs, Path.sameAs, BEq.comm]

namespace World

/-- A path is the canonical path of a file that can be read. -/
def IsFile (w : World) (file : Path) : Prop :=
  ∃ p text, w.read p = .ok text ∧ w.canonical? p = some file

/-- The number of files that can be read. -/
noncomputable def fileCount (w : World) : Nat :=
  {file | w.IsFile file}.ncard

/-- Files that can be read are finitely many, as each of them is listed by the world. -/
theorem finite_isFile (w : World) : {file | w.IsFile file}.Finite := by
  refine w.files.finite_toSet.subset ?_
  intro file hfile
  obtain ⟨p, text, hread, hcanonical⟩ := hfile
  obtain ⟨other, hmem, hother⟩ := w.canonical_mem_files p text hread
  rw [hcanonical] at hother
  exact Option.some.inj hother ▸ hmem

/-- Of distinct files there are at most as many as can be read. This is the only place where the
number of files enters. -/
theorem length_le_fileCount {w : World} {files : List Path} (hnodup : files.Nodup)
    (hfiles : ∀ file ∈ files, w.IsFile file) : files.length ≤ w.fileCount := by
  have hsub : (files.toFinset : Set Path) ⊆ {file | w.IsFile file} :=
    fun file hfile => hfiles file (by simpa using hfile)
  rw [← List.toFinset_card_of_nodup hnodup, ← Set.ncard_coe_finset]
  exact Set.ncard_le_ncard hsub w.finite_isFile

/-- A path that can be read is recognised by the canonical path of its file. The fallback to the
path itself is for paths that cannot be read. -/
theorem isFile_key {w : World} {p : Path} {text : String} (hread : w.read p = .ok text) :
    w.IsFile (w.key p) := by
  obtain ⟨file, -, hfile⟩ := w.canonical_mem_files p text hread
  exact ⟨p, text, hread, by rw [key, hfile, Option.getD_some]⟩

end World

namespace Loader

variable {w : World} {l : Loader} {p : Path} {text : String} {source : Source}

/-! ## The stack of open files -/

/-- The open files of a loader are distinct files that can be read. -/
structure Sound (w : World) (l : Loader) : Prop where
  distinct : l.opened.Pairwise fun file other => file.sameAs other = false
  isFile : ∀ file ∈ l.opened, w.IsFile file

namespace Sound

/-- Files that are recognised by different paths are different paths. -/
theorem nodup (h : l.Sound w) : l.opened.Nodup := by
  refine h.distinct.imp ?_
  intro file other hne heq
  rw [heq, Path.sameAs, beq_self_eq_true] at hne
  cases hne

theorem length_le (h : l.Sound w) : l.opened.length ≤ w.fileCount :=
  World.length_le_fileCount h.nodup h.isFile

theorem forInclude (h : l.Sound w) (q : Path) : (l.forInclude q).Sound w :=
  ⟨h.distinct, h.isFile⟩

/-- Entering a file that is read and not open yet keeps the stack sound. Both hypotheses are what a
load has checked when it enters the file. -/
theorem enter (h : l.Sound w) (hopen : l.isOpen (w.key p) = false) (hread : w.read p = .ok text) :
    (l.enter (w.key p)).Sound w := by
  constructor
  · refine List.pairwise_cons.mpr ⟨?_, h.distinct⟩
    intro file hfile
    rw [Path.sameAs_comm]
    exact Bool.eq_false_iff.mpr (List.any_eq_false.mp hopen file hfile)
  · intro file hfile
    rcases List.mem_cons.mp hfile with rfl | hfile
    · exact World.isFile_key hread
    · exact h.isFile file hfile

end Sound

/-! ## Calls inside calls -/

/-- A call that loads a file. -/
structure Call where
  loader : Loader
  path : Path

namespace Call

/-- The call gets as far as composing a text. -/
def Reads (w : World) (c : Call) (text : String) : Prop :=
  c.loader.isOpen (w.key c.path) = false ∧ w.read c.path = .ok text

/-- The loader of a call in the middle of its file. -/
def inside (w : World) (c : Call) : Loader :=
  c.loader.enter (w.key c.path)

end Call

/-- A loader that composes a text makes a call. -/
def Makes (w : World) (l : Loader) (text : String) (c : Call) : Prop :=
  l.Asks w (l.included w) text c.path ∧ c.loader = l.forInclude c.path

/-- At some moment of a load these calls are running, each directly inside the next one. -/
inductive Nested (w : World) (l : Loader) : Source → List Call → Prop
  | file (p : Path) : Nested w l (.file p) [⟨l, p⟩]
  | text {content : String} {c : Call} (hmakes : l.Makes w content c) :
      Nested w l (.text content) [c]
  | inside {source : Source} {c inner : Call} {outer : List Call} {text : String}
      (h : Nested w l source (c :: outer)) (hreads : c.Reads w text)
      (hmakes : (c.inside w).Makes w text inner) : Nested w l source (inner :: c :: outer)

/-- At some moment of a load this is the stack of open files of the loader that is at work. -/
inductive Holds (w : World) (l : Loader) (source : Source) : List Path → Prop
  /-- No call is running. -/
  | outside : Holds w l source l.opened
  /-- The innermost call has not entered its file, or has left it. -/
  | call {c : Call} {outer : List Call} (h : Nested w l source (c :: outer)) :
      Holds w l source c.loader.opened
  /-- The innermost call is in the middle of its file. -/
  | inside {c : Call} {outer : List Call} {text : String} (h : Nested w l source (c :: outer))
      (hreads : c.Reads w text) : Holds w l source (c.inside w).opened

/-- What holds of the outermost call of a load, and is handed on from a call in the middle of its
file to the calls that it makes there, holds of every call, together with the calls around it. -/
theorem nested_induction {P : Call → List Call → Prop}
    (file : ∀ p, source = .file p → P ⟨l, p⟩ [])
    (text : ∀ content c, source = .text content → l.Makes w content c → P c [])
    (inside : ∀ c outer content inner, P c outer → c.Reads w content →
      (c.inside w).Makes w content inner → P inner (c :: outer))
    {c : Call} {outer : List Call} (h : Nested w l source (c :: outer)) : P c outer := by
  generalize hcalls : c :: outer = calls at h
  induction h generalizing c outer with
  | file p =>
    obtain ⟨rfl, rfl⟩ := List.cons.inj hcalls
    exact file p rfl
  | text hmakes =>
    obtain ⟨rfl, rfl⟩ := List.cons.inj hcalls
    exact text _ _ rfl hmakes
  | inside _ hreads hmakes ih =>
    obtain ⟨rfl, rfl⟩ := List.cons.inj hcalls
    exact inside _ _ _ _ (ih file text rfl) hreads hmakes

/-- The open files at the start of a call are the files of the calls around it, and those that were
open before. So the stack mirrors the nesting of calls at every moment. -/
theorem opened_of_nested {c : Call} {outer : List Call} (h : Nested w l source (c :: outer)) :
    c.loader.opened = outer.map (fun c => w.key c.path) ++ l.opened := by
  refine nested_induction (P := fun c outer =>
    c.loader.opened = outer.map (fun c => w.key c.path) ++ l.opened) (fun _ _ => rfl) ?_ ?_ h
  · intro content c _ hmakes
    rw [hmakes.2]
    rfl
  · intro c outer content inner ih _ hmakes
    rw [hmakes.2, List.map_cons, List.cons_append, ← ih]
    rfl

/-- Calls leave the stack sound, however deeply they are nested. -/
theorem sound_of_nested (hsound : l.Sound w) {c : Call} {outer : List Call}
    (h : Nested w l source (c :: outer)) : c.loader.Sound w := by
  refine nested_induction (P := fun c _ => c.loader.Sound w) (fun _ _ => hsound) ?_ ?_ h
  · intro content c _ hmakes
    exact hmakes.2 ▸ hsound.forInclude c.path
  · intro c outer content inner ih hreads hmakes
    exact hmakes.2 ▸ (ih.enter hreads.1 hreads.2).forInclude inner.path

/-- The stack is sound at every moment: before a call, in the middle of it and after it. -/
theorem sound_of_holds (hsound : l.Sound w) {stack : List Path} (h : Holds w l source stack) :
    Sound w { l with opened := stack } := by
  cases h with
  | outside => exact hsound
  | call h =>
    have hc := sound_of_nested hsound h
    exact ⟨hc.distinct, hc.isFile⟩
  | inside h hreads =>
    have hc := (sound_of_nested hsound h).enter hreads.1 hreads.2
    exact ⟨hc.distinct, hc.isFile⟩

/-! ## Coming to an end -/

/-- Loading a file comes to an end with an outcome, and `depth` bounds how deeply calls are nested,
this one included. -/
inductive Loads (w : World) : Nat → Loader → Path → Except Failure Value → Prop
  | circular {depth : Nat} {l : Loader} {p : Path} (hopen : l.isOpen (w.key p) = true) :
      Loads w (depth + 1) l p (.error (.circularInclude p))
  | unreadable {depth : Nat} {l : Loader} {p : Path} {fault : ReadFault}
      (hopen : l.isOpen (w.key p) = false) (hread : w.read p = .error fault) :
      Loads w (depth + 1) l p (.error (.unreadable p fault))
  /-- The documents of all files that the text asks for come out, as `load` has them. -/
  | read {depth : Nat} {l : Loader} {p : Path} {text : String} {load : Path → Except Failure Value}
      (hopen : l.isOpen (w.key p) = false) (hread : w.read p = .ok text)
      (hload : ∀ q, (l.enter (w.key p)).Asks w load text q →
        Loads w depth ((l.enter (w.key p)).forInclude q) q (load q)) :
      Loads w (depth + 1) l p ((l.enter (w.key p)).compose w load text p)

/-- Loading a source comes to an end with an outcome, and `depth` bounds how deeply calls that load
files are nested. -/
inductive Ends (w : World) (depth : Nat) (l : Loader) : Source → Except Failure Value → Prop
  | file {p : Path} {outcome : Except Failure Value} (h : Loads w depth l p outcome) :
      Ends w depth l (.file p) outcome
  | text {content : String} {load : Path → Except Failure Value}
      (hload : ∀ q, l.Asks w load content q → Loads w depth (l.forInclude q) q (load q)) :
      Ends w depth l (.text content) (l.compose w load content (Source.text content).name)

/-- There is one outcome at most, and it is what the loader computes. The relation knows nothing of
a budget, so the budget of the function is confirmed from outside. -/
theorem Loads.eq_loadFile {depth : Nat} {outcome : Except Failure Value}
    (h : Loads w depth l p outcome) : outcome = (l.loadFile w p).1 := by
  induction h with
  | circular hopen => rw [loadFile_of_isOpen hopen]
  | unreadable hopen hread => rw [loadFile_of_unreadable hopen hread]
  | read hopen hread _ ih =>
    rw [loadFile_of_read hopen hread]
    exact (compose_congr rfl rfl (fun _ _ _ _ => rfl) fun q hq => (ih q hq).symm).symm

theorem Ends.eq_load {depth : Nat} {outcome : Except Failure Value}
    (h : Ends w depth l source outcome) : outcome = (l.load w source).1 := by
  cases h with
  | file h => exact h.eq_loadFile
  | text hload =>
    refine (compose_congr rfl rfl (fun _ _ _ _ => rfl) fun q hq => ?_).symm
    exact (hload q hq).eq_loadFile.symm

/-- A load comes to an end before it has nested more calls than there are files left to enter, and
one more. At that depth a call can only be refused, since all files that can be read are open. -/
theorem loads_of_sound {depth : Nat} (hsound : l.Sound w)
    (hdepth : l.opened.length + depth = w.fileCount + 1) :
    Loads w depth l p (l.loadFile w p).1 := by
  induction l, p using load_induction (w := w) generalizing depth with
  | step l p ih =>
    have hlength := hsound.length_le
    obtain ⟨depth, rfl⟩ : ∃ n, depth = n + 1 := ⟨depth - 1, by omega⟩
    obtain ⟨hopen, hout⟩ | ⟨fault, hopen, hread, hout⟩ | ⟨text, hopen, hread, hout⟩ :=
      loadFile_cases w l p
    · rw [hout]
      exact .circular hopen
    · rw [hout]
      exact .unreadable hopen hread
    · rw [hout]
      refine .read hopen hread fun q _ => ih text hopen hread q ?_ ?_
      · exact (hsound.enter hopen hread).forInclude q
      · have : ((l.enter (w.key p)).forInclude q).opened.length = l.opened.length + 1 := rfl
        omega

/-- Loading a source ends within the depth that is left. A text adds no level itself, as no file is
open for it. -/
theorem ends_of_sound {depth : Nat} (hsound : l.Sound w)
    (hdepth : l.opened.length + depth = w.fileCount + 1) :
    Ends w depth l source (l.load w source).1 := by
  cases source with
  | file p => exact .file (loads_of_sound hsound hdepth)
  | text content => exact .text fun q _ => loads_of_sound (hsound.forInclude q) hdepth

/-- **Loading ends.** Of a loader that starts with nothing open, the open files are at every moment
distinct files that can be read. So there are never more of them than there are such files, calls
are nested at most one deeper than that, and within this depth the load comes to an end with a
document or a failure. -/
theorem load_ends (w : World) (root : Path) (mergeKeys : Bool) (source : Source) :
    (∀ stack, Holds w ⟨root, mergeKeys, []⟩ source stack →
      stack.Pairwise (fun file other => file.sameAs other = false) ∧
        (∀ file ∈ stack, w.IsFile file) ∧ stack.length ≤ w.fileCount) ∧
    (∀ calls, Nested w ⟨root, mergeKeys, []⟩ source calls → calls.length ≤ w.fileCount + 1) ∧
    ∀ outcome, Ends w (w.fileCount + 1) ⟨root, mergeKeys, []⟩ source outcome ↔
      outcome = (Loader.load w ⟨root, mergeKeys, []⟩ source).1 := by
  have hsound : Sound w ⟨root, mergeKeys, []⟩ :=
    ⟨List.Pairwise.nil, fun _ h => absurd h List.not_mem_nil⟩
  refine ⟨fun stack hstack => ?_, fun calls hcalls => ?_, fun outcome => ⟨Ends.eq_load, ?_⟩⟩
  · have h := sound_of_holds hsound hstack
    exact ⟨h.distinct, h.isFile, h.length_le⟩
  · cases calls with
    | nil => exact Nat.zero_le _
    | cons c outer =>
      have hlength := (sound_of_nested hsound hcalls).length_le
      rw [opened_of_nested hcalls, List.append_nil, List.length_map] at hlength
      exact Nat.succ_le_succ hlength
  · rintro rfl
    exact ends_of_sound hsound (Nat.zero_add _)

end Loader

end YamlWeave
