import RegistrySync.Configuration
import RegistrySync.Destinations
import RegistrySync.Policy.Document
import RegistrySync.Registry.Document
import RegistrySync.TrustStore

/-!
A pass writes the whole configuration to its destinations in four stages, and stops at the first
action that fails.
-/

namespace RegistrySync

inductive Stage where
  | registries
  | policy
  | certCleanup
  | certWrite
  deriving DecidableEq, Repr

def Stage.name : Stage → String
  | registries => "registries"
  | policy => "policy"
  | certCleanup => "cert_cleanup"
  | certWrite => "cert_write"

namespace Pass

structure Failure where
  stage : Stage
  failure : IoFailure
  deriving DecidableEq, Repr

def Failure.message (f : Failure) : String :=
  f.stage.name ++ " stage failed: " ++ f.failure.message

structure Summary where
  registries : Nat
  rejected : Nat
  certificates : Nat
  deriving DecidableEq, Repr

end Pass

namespace Configuration

def stages (c : Configuration) (d : Destinations) : List (Stage × List Action) :=
  let store : TrustStore := ⟨d.certsDir⟩
  [(.registries, Action.writing d.registriesConf c.registries.toToml),
    (.policy, Action.writing d.policyJson c.policy.toJson),
    (.certCleanup, store.clearing),
    (.certWrite, store.writingAll c.certificates)]

def summary (c : Configuration) : Pass.Summary where
  registries := c.registries.size
  rejected := c.policy.rejected.length
  certificates := c.certificates.length

end Configuration

namespace Pass

def runStages : List (Stage × List Action) → FileTree → Except Failure Unit × FileTree
  | [], t => (.ok (), t)
  | (stage, actions) :: rest, t =>
    match Action.runAll actions t with
    | (.ok (), t) => runStages rest t
    | (.error e, t) => (.error ⟨stage, e⟩, t)

def run (c : Configuration) (d : Destinations) (t : FileTree) :
    Except Failure Summary × FileTree :=
  match runStages (c.stages d) t with
  | (.ok (), t) => (.ok c.summary, t)
  | (.error e, t) => (.error e, t)

end Pass
end RegistrySync
