import YamlWeave.Loader
import YamlWeave.World.Host

/-!
# Sessions

One loader, used again and again on a host whose files and variables change between the loads.
-/

set_option autoImplicit false

namespace YamlWeave

inductive Step where
  | load (source : Source)
  | loadFile (path : Path)
  | loadText (text : String) (path : Path)
  | root
  | renew (loader : Loader)
  /-- Puts a file, a directory or a link under a path. -/
  | write (path : Path) (item : Item)
  | remove (path : Path)
  | setVariable (name : String) (value : ByteArray)
  | unsetVariable (name : String)

inductive Answer where
  | result (result : Except Failure Value)
  | root (path : Path)
  | done

namespace Host

/-- Puts a file, a directory or a link under a path. -/
def write (path : Path) (item : Item) (h : Host) : Host :=
  match item with
  | .file content => { h with disk := h.disk.writeFile path content }
  | .directory => { h with disk := h.disk.makeDirectories path }
  | .link target => { h with disk := h.disk.makeLink path target }

def remove (path : Path) (h : Host) : Host :=
  { h with disk := h.disk.remove path }

def setVariable (name : String) (value : ByteArray) (h : Host) : Host :=
  { h with bindings := h.bindings.set name value }

def unsetVariable (name : String) (h : Host) : Host :=
  { h with bindings := h.bindings.unset name }

end Host

/-- A loader and the host it works on. -/
structure Session where
  loader : Loader
  host : Host

namespace Session

/-- The session after a load, with what the load tells. -/
def told (s : Session) (outcome : Except Failure Value × Loader) : Answer × Session :=
  (.result outcome.1, { s with loader := outcome.2 })

def step (s : Session) : Step → Answer × Session
  | .load source => s.told (s.loader.load s.host.world source)
  | .loadFile path => s.told (s.loader.loadFile s.host.world path)
  | .loadText text path => s.told (s.loader.loadText s.host.world text path)
  | .root => (.root s.loader.root, s)
  | .renew loader => (.root loader.root, { s with loader })
  | .write path item => (.done, { s with host := s.host.write path item })
  | .remove path => (.done, { s with host := s.host.remove path })
  | .setVariable name value => (.done, { s with host := s.host.setVariable name value })
  | .unsetVariable name => (.done, { s with host := s.host.unsetVariable name })

/-- What the steps of a session tell, one after the other. -/
def run (s : Session) : List Step → List Answer
  | [] => []
  | step :: steps =>
    let (answer, s) := s.step step
    answer :: s.run steps

end Session

end YamlWeave
