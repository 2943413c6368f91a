import RegistrySync.Cluster.Metadata
import RegistrySync.Sink

/-!
Image settings of a cluster: which registries are allowed, blocked or reached without TLS.
-/

namespace RegistrySync.Cluster

structure RegistrySources where
  allowed : List String
  blocked : List String
  insecure : List String
  deriving DecidableEq, Repr

namespace RegistrySources

def none : RegistrySources := ⟨[], [], []⟩

def ofValue? (v : Value) : Option RegistrySources := do
  let member ← v.record? ["allowedRegistries", "blockedRegistries", "insecureRegistries"]
  let registries (name : String) := readOr [] Value.texts? (member name)
  return ⟨← registries "allowedRegistries", ← registries "blockedRegistries",
    ← registries "insecureRegistries"⟩

end RegistrySources

structure ImageSettings where
  metadata : Metadata
  sources : RegistrySources
  deriving DecidableEq, Repr

namespace ImageSettings

def name (i : ImageSettings) : String := i.metadata.name

def sourcesOfSpec? (v : Value) : Option RegistrySources := do
  let member ← v.record? ["registrySources"]
  readOr .none RegistrySources.ofValue? (member "registrySources")

def ofValue? (v : Value) : Option ImageSettings := do
  let member ← v.record? ["metadata", "spec"]
  return ⟨← Metadata.ofValue? (← member "metadata"), ← sourcesOfSpec? (← member "spec")⟩

def clusterName : String := "cluster"

def change? (i : ImageSettings) : Option Change :=
  if i.name = clusterName then
    some (.setRegistryPolicy i.sources.allowed i.sources.blocked i.sources.insecure)
  else none

end ImageSettings
end RegistrySync.Cluster
