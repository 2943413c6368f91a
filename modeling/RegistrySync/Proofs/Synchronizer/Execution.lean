import RegistrySync.Proofs.Synchronizer.Service

/-!
Executions of the synchronizer, in which the steps of any number of calls and of the one writer
interleave. A call waits for the lock, changes the configuration or is refused, gives the lock back,
and only then posts its request; the writer accepts a request, takes the lock, and runs one pass.
Beside the synchronizer an execution remembers what has happened so far.
-/

namespace RegistrySync

namespace Synchronizer

def change (change : Change) (s : Synchronizer) : Except Refusal Synchronizer :=
  (s.configuration.apply change).map fun configuration => { s with configuration }

def post (s : Synchronizer) : Synchronizer :=
  { s with signal := s.signal.post }

theorem submit_eq (change : Change) (s : Synchronizer)
    : s.submit change = match s.change change with
        | .ok changed => (.ok s.signal.posts.length, changed.post)
        | .error cause => (.error cause, s) := by
  unfold submit Synchronizer.change
  cases s.configuration.apply change <;> rfl

end Synchronizer

inductive Call.Stage where
  | started
  /-- Has made the change that stands at a position of all changes made. -/
  | changed (position : Nat)
  | posted (position request : Nat)
  | refused (cause : Refusal)
  /-- Was cancelled before its request was posted. -/
  | abandoned (position : Option Nat)

structure Call where
  change : Change
  stage : Call.Stage

namespace Call

def position? (call : Call) : Option Nat :=
  match call.stage with
  | .changed position => some position
  | .posted position _ => some position
  | .abandoned position => position
  | _ => none

def request? (call : Call) : Option Nat :=
  match call.stage with
  | .posted _ request => some request
  | _ => none

/-- With its refusal, or because its request was accepted; a cancelled call does not return. -/
def Returned (signal : ChangeSignal) (call : Call) : Prop :=
  match call.stage with
  | .posted _ request => signal.posts[request]? = some .accepted
  | .refused _ => True
  | _ => False

instance (signal : ChangeSignal) : DecidablePred (Returned signal) := fun ⟨_, stage⟩ =>
  match stage with
  | .posted _ request => inferInstanceAs (Decidable (signal.posts[request]? = some .accepted))
  | .refused _ => inferInstanceAs (Decidable True)
  | .started | .changed _ | .abandoned _ => inferInstanceAs (Decidable False)

end Call

inductive Writer where
  | idle
  /-- Has accepted a request, before which a number of changes had been made. -/
  | accepted (request madeBefore : Nat)
  | locked (request madeBefore : Nat)

def Writer.request? : Writer → Option Nat
  | idle => none
  | accepted request _ => some request
  | locked request _ => some request

/-- What the pass for a request writes: the configuration after a number of changes. -/
structure Writing where
  request : Nat
  madeBefore : Nat
  made : Nat
  configuration : Configuration

structure Execution where
  synchronizer : Synchronizer
  calls : List Call
  /-- The changes in the order in which they were made. -/
  made : List Change
  /-- The requests in the order in which they were accepted. -/
  accepted : List Nat
  writer : Writer
  /-- What the finished passes have written, and their reports. -/
  written : List Writing
  reports : List Report

namespace Execution

def start (d : Destinations) (t : FileTree) : Execution :=
  ⟨.start d t, [], [], [], .idle, [], []⟩

def signal (e : Execution) : ChangeSignal :=
  e.synchronizer.signal

def configuration (e : Execution) : Configuration :=
  e.synchronizer.configuration

def begin (e : Execution) (change : Change) : Execution :=
  { e with calls := e.calls ++ [⟨change, .started⟩] }

def setStage (e : Execution) (i : Nat) (change : Change) (stage : Call.Stage) : Execution :=
  { e with calls := e.calls.set i ⟨change, stage⟩ }

def change (e : Execution) (i : Nat) (change : Change) (s : Synchronizer) : Execution :=
  { e.setStage i change (.changed e.made.length) with
    synchronizer := s
    made := e.made ++ [change] }

def post (e : Execution) (i : Nat) (change : Change) (position : Nat) : Execution :=
  { e.setStage i change (.posted position e.signal.posts.length) with
    synchronizer := e.synchronizer.post }

def cancel (e : Execution) (request : Nat) : Execution :=
  { e with synchronizer := e.synchronizer.cancel request }

/-- The caller is cancelled when the slot is free for its request, but before it takes the slot. -/
def withdraw (e : Execution) (request : Nat) : Execution :=
  { e with
    synchronizer := { e.synchronizer with signal := e.signal.vacate request .cancelled } }

def accept (e : Execution) (request : Nat) : Execution :=
  { e with
    synchronizer := e.synchronizer.acceptRequest
    accepted := e.accepted ++ [request]
    writer := .accepted request e.made.length }

def lock (e : Execution) (request madeBefore : Nat) : Execution :=
  { e with writer := .locked request madeBefore }

def writing (e : Execution) (request madeBefore : Nat) : Writing :=
  ⟨request, madeBefore, e.made.length, e.configuration⟩

def runPass (e : Execution) (request madeBefore : Nat) : Execution :=
  let s := e.synchronizer.runPass
  { e with
    synchronizer := s
    writer := .idle
    written := e.written ++ [e.writing request madeBefore]
    reports := e.reports ++ s.report.toList }

/-- What was written and what is being written. -/
def writings (e : Execution) : List Writing :=
  match e.writer with
  | .locked request madeBefore => e.written ++ [e.writing request madeBefore]
  | _ => e.written

/-- The configuration that the last finished pass wrote, by default the initial one. -/
def lastWritten (e : Execution) : Configuration :=
  (e.written.map (·.configuration)).getLastD .initial

inductive Step : Execution → Execution → Prop where
  | begin {e : Execution} (change : Change) : Step e (e.begin change)
  | change {e : Execution} {i : Nat} {change : Change} {s : Synchronizer}
      (call : e.calls[i]? = some ⟨change, .started⟩)
      (unlocked : ∀ request madeBefore, e.writer ≠ .locked request madeBefore)
      (changed : e.synchronizer.change change = .ok s) : Step e (e.change i change s)
  | refuse {e : Execution} {i : Nat} {change : Change} {cause : Refusal}
      (call : e.calls[i]? = some ⟨change, .started⟩)
      (unlocked : ∀ request madeBefore, e.writer ≠ .locked request madeBefore)
      (refused : e.synchronizer.change change = .error cause) :
      Step e (e.setStage i change (.refused cause))
  | post {e : Execution} {i : Nat} {change : Change} {position : Nat}
      (call : e.calls[i]? = some ⟨change, .changed position⟩) : Step e (e.post i change position)
  | accept {e : Execution} {request : Nat} (idle : e.writer = .idle)
      (slot : e.signal.slot = some request) : Step e (e.accept request)
  | lock {e : Execution} {request madeBefore : Nat}
      (accepted : e.writer = .accepted request madeBefore) : Step e (e.lock request madeBefore)
  | runPass {e : Execution} {request madeBefore : Nat}
      (locked : e.writer = .locked request madeBefore) : Step e (e.runPass request madeBefore)
  | abandonStarted {e : Execution} {i : Nat} {change : Change}
      (call : e.calls[i]? = some ⟨change, .started⟩) :
      Step e (e.setStage i change (.abandoned none))
  | abandonChanged {e : Execution} {i : Nat} {change : Change} {position : Nat}
      (call : e.calls[i]? = some ⟨change, .changed position⟩) :
      Step e (e.setStage i change (.abandoned (some position)))
  | cancel {e : Execution} {request : Nat}
      (pending : e.signal.posts[request]? = some .pending) : Step e (e.cancel request)
  | withdraw {e : Execution} {request : Nat}
      (pending : e.signal.posts[request]? = some .pending)
      (slot : e.signal.slot = some request) : Step e (e.withdraw request)

inductive Reachable (d : Destinations) (t : FileTree) : Execution → Prop where
  | start : Reachable d t (start d t)
  | next {e f : Execution} : Reachable d t e → Step e f → Reachable d t f

end Execution
end RegistrySync
