import RegistrySync.Cluster.MirrorTracker
import RegistrySync.Yaml.Document

/-!
The desired state: the cluster objects that a rendering starts from.
-/

namespace RegistrySync

structure DesiredState where
  image? : Option Cluster.ImageSettings
  mirrorPolicies : List Cluster.MirrorPolicy
  certificates? : Option Cluster.ConfigMap

namespace DesiredState

def ofValue? (v : Value) : Option DesiredState := do
  let member ← v.record? ["image", "imageContentSourcePolicies", "registryCertificates"]
  let image ← readOr none (Value.optional? Cluster.ImageSettings.ofValue?) (member "image")
  let policies ← readOr [] (Value.listOf? Cluster.MirrorPolicy.ofValue?)
    (member "imageContentSourcePolicies")
  let certificates ← readOr none (Value.optional? Cluster.ConfigMap.ofValue?)
    (member "registryCertificates")
  return ⟨image, policies, certificates⟩

def ofYaml? (text : String) : Option DesiredState := do
  ofValue? (← Yaml.parse? text)

inductive Refusal where
  | image (cause : SinkError)
  | certificates (cause : SinkError)
  deriving DecidableEq, Repr

variable {m : Type → Type} [Monad m]

def feedMirrors (sink : Sink m) : List Cluster.MirrorPolicy → m Nat
  | [] => return 0
  | p :: rest => do
    let count ← p.add sink
    return count + (← feedMirrors sink rest)

def feed (sink : Sink m) (s : DesiredState) : m (Except Refusal Nat) := do
  let mirrors ← feedMirrors sink s.mirrorPolicies
  match ← Cluster.applyChange sink (s.image?.bind (·.change?)) with
  | .error cause => return .error (.image cause)
  | .ok image =>
    match ← Cluster.applyChange sink (s.certificates?.bind (·.change?)) with
    | .error cause => return .error (.certificates cause)
    | .ok certificates => return .ok (mirrors + image.toNat + certificates.toNat)

end DesiredState
end RegistrySync
