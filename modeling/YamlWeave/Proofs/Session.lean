import YamlWeave.Proofs.Loader.Documents
import YamlWeave.Session

/-!
# A loader carries no history

A loader that loads something is the same loader afterwards, whatever comes of it and however deep
inside included files it fails: every file that is entered is left again (`loader_of_loadFile`). So
a session with one loader tells what loaders would tell that are built anew for every step, on the
host as it is at that moment (`run_eq_runAnew`).
-/

set_option autoImplicit false

namespace YamlWeave

deriving instance DecidableEq for Answer

namespace Loader

variable (w : World) (l : Loader)

/-- Every file that is entered is left again. It is left also where the load fails inside, so no
failure leaves a file open. -/
theorem loader_of_loadFile (p : Path) : (l.loadFile w p).2 = l := by
  cases hopen : l.isOpen (w.key p) with
  | true => rw [loadFile_of_isOpen hopen]
  | false =>
    cases hread : w.read p with
    | error fault => rw [loadFile_of_unreadable hopen hread]
    | ok text => rw [loadFile_of_read hopen hread]

theorem loader_of_loadText (text : String) (path : Path) : (l.loadText w text path).2 = l := rfl

theorem loader_of_load (source : Source) : (l.load w source).2 = l := by
  cases source with
  | file p => exact loader_of_loadFile w l p
  | text content => exact loader_of_loadText w l content _

end Loader

namespace Step

/-- Whether a step exchanges the loader for another one. -/
def isRenewal : Step → Bool
  | .renew _ => true
  | _ => false

/-- What a step makes of the host. -/
def change (host : Host) : Step → Host
  | .write path item => host.write path item
  | .remove path => host.remove path
  | .setVariable name value => host.setVariable name value
  | .unsetVariable name => host.unsetVariable name
  | _ => host

end Step

namespace Session

/-- The session after some steps. -/
def after (s : Session) : List Step → Session
  | [] => s
  | step :: steps => (s.step step).2.after steps

/-- What steps tell when each of them is taken by a loader that is built anew, on the host that the
steps before it leave. -/
def runAnew (fresh : Loader) (host : Host) : List Step → List Answer
  | [] => []
  | step :: steps =>
    ((⟨fresh, host⟩ : Session).step step).1 :: runAnew fresh (step.change host) steps

/-- A step keeps the loader, unless it exchanges it. Steps that load change nothing at all. -/
theorem step_eq {s : Session} {step : Step} (h : step.isRenewal = false) :
    (s.step step).2 = ⟨s.loader, step.change s.host⟩ := by
  cases step with
  | load source =>
    show Session.mk (s.loader.load s.host.world source).2 s.host = ⟨s.loader, s.host⟩
    rw [Loader.loader_of_load]
  | loadFile path =>
    show Session.mk (s.loader.loadFile s.host.world path).2 s.host = ⟨s.loader, s.host⟩
    rw [Loader.loader_of_loadFile]
  | renew loader => cases h
  | _ => rfl

variable {steps : List Step}

/-- Only what changes the host leaves a trace in a session. Loads may stand anywhere between the
changes. -/
theorem after_eq (h : ∀ step ∈ steps, step.isRenewal = false) (s : Session) :
    s.after steps = ⟨s.loader, steps.foldl Step.change s.host⟩ := by
  induction steps generalizing s with
  | nil => rfl
  | cons step steps ih =>
    obtain ⟨hstep, hsteps⟩ := List.forall_mem_cons.mp h
    rw [after, step_eq hstep, ih hsteps, List.foldl_cons]

/-- A session tells what its first step tells, and then what it tells from there. -/
theorem run_cons (s : Session) (step : Step) (steps : List Step) :
    s.run (step :: steps) = (s.step step).1 :: (s.step step).2.run steps := rfl

/-- Steps tell what they would tell with a loader that is built anew for each of them. The host is
the same in both, since no load changes it. -/
theorem run_eq_runAnew (h : ∀ step ∈ steps, step.isRenewal = false) (fresh : Loader) (host : Host) :
    (⟨fresh, host⟩ : Session).run steps = runAnew fresh host steps := by
  induction steps generalizing host with
  | nil => rfl
  | cons step steps ih =>
    obtain ⟨hstep, hsteps⟩ := List.forall_mem_cons.mp h
    rw [run_cons, step_eq hstep, ih hsteps, runAnew]

end Session

/-- **A loader carries no history.** No load changes the loader that it is made with, in whatever
world and whether it succeeds or fails. So in a session with one loader, the loader is after every
step what it was built as, with no file open, and each step tells what it would tell with a loader
that is built anew, on the host of that moment. -/
theorem loader_carries_no_history :
    (∀ (w : World) (l : Loader), (∀ source, (l.load w source).2 = l) ∧
      (∀ path, (l.loadFile w path).2 = l) ∧ ∀ text path, (l.loadText w text path).2 = l) ∧
    ∀ (root : Path) (mergeKeys : Bool) (host : Host) (steps : List Step),
      (∀ step ∈ steps, step.isRenewal = false) →
        (⟨⟨root, mergeKeys, []⟩, host⟩ : Session).after steps =
          ⟨⟨root, mergeKeys, []⟩, steps.foldl Step.change host⟩ ∧
        (⟨⟨root, mergeKeys, []⟩, host⟩ : Session).run steps =
          Session.runAnew ⟨root, mergeKeys, []⟩ host steps := by
  constructor
  · intro w l
    exact ⟨l.loader_of_load w, l.loader_of_loadFile w, l.loader_of_loadText w⟩
  · intro root mergeKeys host steps h
    exact ⟨Session.after_eq h _, Session.run_eq_runAnew h _ host⟩

/-- A file that was refused for a cycle is loaded by the same loader once the cycle is gone. -/
example : (⟨.withRoot .here, ⟨⟨[], []⟩, []⟩⟩ : Session).run
    [.write ⟨"/a"⟩ (.file "k: !include /a".toUTF8), .loadFile ⟨"/a"⟩,
      .write ⟨"/a"⟩ (.file "k: 1".toUTF8), .loadFile ⟨"/a"⟩] =
    [.done, .result (.error (.circularInclude ⟨"/a"⟩)), .done,
      .result (.ok (.mapping [(.string "k", .int 1)]))] := by
  decide +kernel

end YamlWeave
