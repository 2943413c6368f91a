/-!
The change signal: a queue with one slot between those who post a request and the one who accepts
them. A post first waits for the slot, in the order in which posts were started, and then for its
request to be accepted. It may be cancelled in the meantime: while it waits for the slot its request
is withdrawn; once the request is in the slot it stays there.
-/

namespace RegistrySync

inductive ChangeSignal.Status where
  | pending
  | accepted
  | stopped
  | cancelled
  deriving DecidableEq, Repr

inductive ChangeSignal.Answer where
  | taken
  /-- There is no request, and there will be none. -/
  | closed
  | pending
  /-- The receiver was given up before. -/
  | gone
  deriving DecidableEq, Repr

/-- Posts and senders are numbered in the order in which they came to be. -/
structure ChangeSignal where
  slot : Option Nat
  /-- The posts that wait for the slot, the next one first. -/
  waiting : List Nat
  posts : List ChangeSignal.Status
  senders : List Bool
  isReceiving : Bool
  deriving DecidableEq, Repr

namespace ChangeSignal

def start : ChangeSignal :=
  ⟨none, [], [], [true], true⟩

def refill (s : ChangeSignal) : ChangeSignal :=
  match s.slot, s.waiting with
  | none, n :: rest => { s with slot := some n, waiting := rest }
  | _, _ => s

def settle (s : ChangeSignal) (n : Nat) (status : Status) : ChangeSignal :=
  { s with posts := s.posts.modify n fun old => if old = Status.pending then status else old }

/-- Starts a post, whose number is the count of the posts before. -/
def post (s : ChangeSignal) : ChangeSignal :=
  if s.isReceiving then
    { s with posts := s.posts ++ [Status.pending], waiting := s.waiting ++ [s.posts.length] }.refill
  else { s with posts := s.posts ++ [.stopped] }

/-- A pending post holds a sender of its own. -/
def isClosed (s : ChangeSignal) : Bool :=
  !s.senders.contains true && !s.posts.contains Status.pending

def accept (s : ChangeSignal) : Answer × ChangeSignal :=
  if !s.isReceiving then (.gone, s)
  else match s.slot with
    | some n => (.taken, ({ s with slot := none }.settle n .accepted).refill)
    | none => (if s.isClosed then .closed else .pending, s)

def cancel (s : ChangeSignal) (n : Nat) : ChangeSignal :=
  { s with waiting := s.waiting.filter (· ≠ n) }.settle n .cancelled

def cloneSender (s : ChangeSignal) : ChangeSignal :=
  { s with senders := s.senders ++ [true] }

def dropSender (s : ChangeSignal) (n : Nat) : ChangeSignal :=
  { s with senders := s.senders.set n false }

def dropReceiver (s : ChangeSignal) : ChangeSignal :=
  { s with
    slot := none
    waiting := []
    posts := s.posts.map fun old => if old = Status.pending then .stopped else old
    isReceiving := false }

def requests (s : ChangeSignal) : Nat :=
  s.slot.toList.length + s.waiting.length

end ChangeSignal
end RegistrySync
