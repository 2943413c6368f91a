import RegistrySync.Certificate
import RegistrySync.Cluster.Metadata
import RegistrySync.Sink
import RegistrySync.Text.Base64

/-!
Config maps. One of them holds the certificates of the registries.
-/

namespace RegistrySync.Cluster

structure ConfigMap where
  metadata : Metadata
  data? : Option (Std.ExtTreeMap String String)
  deriving DecidableEq

namespace ConfigMap

def name (m : ConfigMap) : String := m.metadata.name

/-- A kind of object is named by one text in each of two members, which may be left out. -/
def isConstant (name value : String) (members : List (String × Value)) : Bool :=
  (Value.given name members).all fun v => v.text? = some value

def binary? (v : Value) : Option Unit := do
  if Base64.accepts (← v.text?).toList then return () else none

def ofValue? (v : Value) : Option ConfigMap := do
  let members ← v.members?
  if !(isConstant "apiVersion" "v1" members && isConstant "kind" "ConfigMap" members) then none
  let _ ← Value.lastOptional? Value.bool? "immutable" members
  let _ ← Value.lastOptional? (Value.mapOf? (Value.optional? binary?)) "binaryData" members
  let metadata ← Value.lastOptional? Metadata.ofValue? "metadata" members
  let data ← Value.lastOptional? Value.textMap? "data" members
  return ⟨metadata.getD .none, data⟩

def certificates (m : ConfigMap) : List Certificate :=
  (m.data?.map Certificate.ofMap).getD []

def certificatesName : String := "image-registry-certificates"

def certificatesNamespace : String := "openshift-image-registry"

def holdsCertificates (m : ConfigMap) : Bool :=
  m.name = certificatesName && m.metadata.namespace? = some certificatesNamespace

def change? (m : ConfigMap) : Option Change :=
  if m.holdsCertificates then some (.replaceCertificates m.certificates) else none

end ConfigMap
end RegistrySync.Cluster
