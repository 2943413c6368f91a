import RegistrySync.Configuration

/-!
Sinks: whatever takes changes one after the other, each with a result.
-/

namespace RegistrySync

inductive SinkError where
  | refused (cause : Refusal)
  | writerStopped
  deriving DecidableEq, Repr

def SinkError.message : SinkError → String
  | refused cause => cause.message
  | writerStopped => "Persistence writer is not running"

abbrev Sink (m : Type → Type) := Change → m (Except SinkError Unit)

namespace Sink

def configuration : Sink (StateM Configuration) := fun change c =>
  match c.apply change with
  | .ok c => (.ok (), c)
  | .error cause => (.error (.refused cause), c)

def guarded {m : Type → Type} [Monad m] (objection : Change → Option SinkError) (sink : Sink m) :
    Sink m := fun change =>
  match objection change with
  | some e => return .error e
  | none => sink change

def recorded {σ : Type} (sink : Sink (StateM σ)) : Sink (StateM (List Change × σ)) :=
  fun change (calls, s) =>
    let (result, s) := sink change s
    (result, calls ++ [change], s)

end Sink
end RegistrySync
