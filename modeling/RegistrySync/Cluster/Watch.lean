import RegistrySync.Cluster.ConfigMap
import RegistrySync.Cluster.ImageSettings

/-!
Events of a watch, and what is done about those of single objects. A relist is announced, returns
all objects that there are, and is closed.
-/

namespace RegistrySync.Cluster

inductive Event (α : Type) where
  | apply (object : α)
  | delete (object : α)
  | init
  | initApply (object : α)
  | initDone
  deriving DecidableEq, Repr

def Event.applied? {α : Type} : Event α → Option α
  | apply object | initApply object => some object
  | delete _ | init | initDone => none

variable {m : Type → Type} [Monad m]

def applyChange (sink : Sink m) : Option Change → m (Except SinkError Bool)
  | none => return .ok false
  | some change => return (← sink change).map fun _ => true

namespace ImageSettings

def apply (sink : Sink m) (i : ImageSettings) : m (Except SinkError Bool) :=
  applyChange sink i.change?

/-- Settings that are deleted stay in force, and an error is dropped. -/
def handle (sink : Sink m) (e : Event ImageSettings) : m Unit := do
  if let some i := e.applied? then
    let _ ← i.apply sink

end ImageSettings

namespace ConfigMap

def apply (sink : Sink m) (c : ConfigMap) : m (Except SinkError Bool) :=
  applyChange sink c.change?

def handle (sink : Sink m) (e : Event ConfigMap) : m Unit := do
  if let some c := e.applied? then
    let _ ← c.apply sink

end ConfigMap
end RegistrySync.Cluster
