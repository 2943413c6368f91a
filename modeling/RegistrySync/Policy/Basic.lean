import Std.Data.ExtTreeMap
import Std.Data.ExtTreeSet

/-!
The signature policy: for each transport, the requirements that hold for the images of a scope. A
registry is rejected by a rule on both transports that pull from registries.
-/

namespace RegistrySync

inductive Requirement where
  | insecureAcceptAnything
  | reject
  deriving DecidableEq, Repr

namespace Requirement

def name : Requirement → String
  | insecureAcceptAnything => "insecureAcceptAnything"
  | reject => "reject"

def all : List Requirement := [insecureAcceptAnything, reject]

def ofName? (name : String) : Option Requirement :=
  all.find? (·.name = name)

end Requirement

inductive Transport where
  | docker
  | dockerDaemon
  | atomic
  deriving DecidableEq, Repr

namespace Transport

def name : Transport → String
  | docker => "docker"
  | dockerDaemon => "docker-daemon"
  | atomic => "atomic"

def all : List Transport := [docker, dockerDaemon, atomic]

def ofName? (name : String) : Option Transport :=
  all.find? (·.name = name)

def rejecting : List Transport := [docker, atomic]

end Transport

/-- The rules of a transport by scope. The empty scope is the transport's catch-all. -/
abbrev Scopes := Std.ExtTreeMap String (List Requirement)

structure Policy where
  default : List Requirement
  docker : Option Scopes
  dockerDaemon : Option Scopes
  atomic : Option Scopes
  deriving DecidableEq

namespace Policy

def initial : Policy where
  default := [.insecureAcceptAnything]
  docker := some ∅
  dockerDaemon := some ((∅ : Scopes).insert "" [.insecureAcceptAnything])
  atomic := some ∅

def scopes? (p : Policy) : Transport → Option Scopes
  | .docker => p.docker
  | .dockerDaemon => p.dockerDaemon
  | .atomic => p.atomic

def setScopes (p : Policy) (scopes : Scopes) : Transport → Policy
  | .docker => { p with docker := some scopes }
  | .dockerDaemon => { p with dockerDaemon := some scopes }
  | .atomic => { p with atomic := some scopes }

/-- The requirement for all other images stays. -/
def resetTransports (p : Policy) : Policy :=
  { initial with default := p.default }

/-- Replaces the rules of one scope; a missing transport gets that scope only. -/
def setRules (p : Policy) (t : Transport) (scope : String) (rules : List Requirement) : Policy :=
  p.setScopes (((p.scopes? t).getD ∅).insert scope rules) t

def reject (p : Policy) (registry : String) : Policy :=
  Transport.rejecting.foldl (fun p t => p.setRules t registry [.reject]) p

def rejectsOn (p : Policy) (registry : String) (t : Transport) : Bool :=
  match p.scopes? t with
  | some scopes => (scopes.getD registry []).contains .reject
  | none => false

def isRejected (p : Policy) (registry : String) : Bool :=
  Transport.rejecting.all (p.rejectsOn registry)

def rejectedOn (p : Policy) (t : Transport) : List String :=
  match p.scopes? t with
  | some scopes => (scopes.toList.filter fun (_, rules) => rules.contains .reject).map (·.1)
  | none => []

/-- The registries that some transport rejects, in order and without repetition. -/
def rejected (p : Policy) : List String :=
  (Std.ExtTreeSet.ofList (Transport.all.flatMap p.rejectedOn)).toList

end Policy
end RegistrySync
