import RegistrySync.ChangeSignal
import RegistrySync.Pass
import RegistrySync.Sink

/-!
The synchronizer: a configuration that callers change, and one writer that is told of each change
through the change signal. A caller's change counts as taken once the writer has accepted its
request; the writer then runs one pass over the configuration as it is at that time. How a pass ends
is seen in the last report only.
-/

namespace RegistrySync

structure Report where
  sequence : Nat
  outcome : Except Pass.Failure Pass.Summary

structure Synchronizer where
  destinations : Destinations
  configuration : Configuration
  signal : ChangeSignal
  /-- How many requests the writer has accepted. -/
  accepted : Nat
  isBusy : Bool
  report : Option Report
  tree : FileTree

namespace Synchronizer

def start (destinations : Destinations) (tree : FileTree) : Synchronizer :=
  ⟨destinations, .initial, .start, 0, false, none, tree⟩

/-- Changes the configuration and starts a post for the change, whose number is returned. -/
def submit (change : Change) (s : Synchronizer) : Except Refusal Nat × Synchronizer :=
  match s.configuration.apply change with
  | .error cause => (.error cause, s)
  | .ok configuration =>
    (.ok s.signal.posts.length, { s with configuration, signal := s.signal.post })

def acceptRequest (s : Synchronizer) : Synchronizer :=
  match s.signal.accept with
  | (.taken, signal) => { s with signal, accepted := s.accepted + 1, isBusy := true }
  | (_, signal) => { s with signal }

def finishPass (s : Synchronizer) (outcome : Except Pass.Failure Pass.Summary) : Synchronizer :=
  { s with isBusy := false, report := some ⟨s.accepted, outcome⟩ }

def runPass (s : Synchronizer) : Synchronizer :=
  let (outcome, tree) := Pass.run s.configuration s.destinations s.tree
  { s with tree }.finishPass outcome

def serve (s : Synchronizer) : Synchronizer :=
  let s := if s.isBusy then s else s.acceptRequest
  if s.isBusy then s.runPass else s

/-- Lets the writer finish all requests that are on their way. -/
def drain (s : Synchronizer) : Synchronizer :=
  Nat.repeat serve (s.signal.requests + 1) s

def cancel (n : Nat) (s : Synchronizer) : Synchronizer :=
  { s with signal := s.signal.cancel n }

def stopWriter (s : Synchronizer) : Synchronizer :=
  { s with signal := s.signal.dropReceiver }

def outcome (s : Synchronizer) (n : Nat) : Except SinkError Unit :=
  if s.signal.posts[n]? = some .stopped then .error .writerStopped else .ok ()

def outcomeOf (s : Synchronizer) : Except Refusal Nat → Except SinkError Unit
  | .ok n => s.outcome n
  | .error cause => .error (.refused cause)

def sink : Sink (StateM Synchronizer) := fun change s =>
  let (submitted, s) := s.submit change
  let s := s.drain
  (s.outcomeOf submitted, s)

def submitAll (changes : List Change) (s : Synchronizer) :
    List (Except Refusal Nat) × Synchronizer :=
  changes.foldl (fun (results, s) change =>
    let (submitted, s) := s.submit change
    (results ++ [submitted], s)) ([], s)

def concurrently (changes : List Change) (s : Synchronizer) :
    List (Except SinkError Unit) × Synchronizer :=
  let (submitted, s) := s.submitAll changes
  let s := s.drain
  (submitted.map s.outcomeOf, s)

/-- One change whose caller gives up before the writer gets a turn. -/
def submitAndCancel (change : Change) (s : Synchronizer) :
    Except SinkError Unit × Synchronizer :=
  let (submitted, s) := s.submit change
  match submitted with
  | .ok n => (s.outcome n, s.cancel n)
  | .error cause => (.error (.refused cause), s)

def cancelled (changes : List Change) (s : Synchronizer) :
    List (Except SinkError Unit) × Synchronizer :=
  let (results, s) := changes.foldl (fun (results, s) change =>
    let (result, s) := s.submitAndCancel change
    (results ++ [result], s)) ([], s)
  (results, s.drain)

inductive Awaited where
  | report (r : Report)
  | writerStopped
  | pending

/-- The newest report serves if its pass is the wanted one or a later one. -/
def await (s : Synchronizer) (sequence : Nat) : Awaited :=
  match s.report.filter (sequence ≤ ·.sequence) with
  | some r => .report r
  | none => if s.signal.isReceiving then .pending else .writerStopped

end Synchronizer
end RegistrySync
