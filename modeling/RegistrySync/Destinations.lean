import RegistrySync.Path

/-!
Where the artifacts go: the registry file, the policy file and the folder of trusted certificates.
-/

namespace RegistrySync

structure Destinations where
  registriesConf : Path
  policyJson : Path
  certsDir : Path
  deriving DecidableEq, Repr

namespace Destinations

structure Overrides where
  registriesConf : Option Path
  policyJson : Option Path
  certsDir : Option Path
  deriving DecidableEq, Repr

/-- Overrides that the environment gives; a variable that is set to nothing still counts. -/
def Overrides.ofEnvironment (lookup : String → Option String) : Overrides where
  registriesConf := (lookup "SYSCONFIG_REGISTRIES_CONF").map Path.ofText
  policyJson := (lookup "SYSCONFIG_POLICY_JSON").map Path.ofText
  certsDir := (lookup "SYSCONFIG_CERTS_DIR").map Path.ofText

def standard : Destinations where
  registriesConf := .ofText "/tmp/containers/registries.conf"
  policyJson := .ofText "/tmp/containers/policy.json"
  certsDir := .ofText "/tmp/docker/certs.d"

def under (root : Path) : Destinations where
  registriesConf := (root.join (.ofText "containers")).join (.ofText "registries.conf")
  policyJson := (root.join (.ofText "containers")).join (.ofText "policy.json")
  certsDir := (root.join (.ofText "docker")).join (.ofText "certs.d")

def override (d : Destinations) (o : Overrides) : Destinations where
  registriesConf := o.registriesConf.getD d.registriesConf
  policyJson := o.policyJson.getD d.policyJson
  certsDir := o.certsDir.getD d.certsDir

def ofEnvironment (lookup : String → Option String) : Destinations :=
  standard.override (.ofEnvironment lookup)

end Destinations
end RegistrySync
