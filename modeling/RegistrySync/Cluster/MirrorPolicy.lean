import RegistrySync.Cluster.Metadata

/-!
Image content source policies: which mirrors serve the content of which source.
-/

namespace RegistrySync.Cluster

structure MirrorSource where
  source : String
  mirrors : List String
  deriving DecidableEq, Repr

def MirrorSource.ofValue? (v : Value) : Option MirrorSource := do
  let member ← v.record? ["source", "mirrors"]
  return ⟨← (← member "source").text?, ← readOr [] Value.texts? (member "mirrors")⟩

structure MirrorPolicy where
  metadata : Metadata
  sources : List MirrorSource
  deriving DecidableEq, Repr

namespace MirrorPolicy

def name (p : MirrorPolicy) : String := p.metadata.name

def sourcesOfSpec? (v : Value) : Option (List MirrorSource) := do
  let member ← v.record? ["repositoryDigestMirrors"]
  readOr [] (Value.listOf? MirrorSource.ofValue?) (member "repositoryDigestMirrors")

def ofValue? (v : Value) : Option MirrorPolicy := do
  let member ← v.record? ["metadata", "spec"]
  return ⟨← Metadata.ofValue? (← member "metadata"), ← sourcesOfSpec? (← member "spec")⟩

end MirrorPolicy
end RegistrySync.Cluster
