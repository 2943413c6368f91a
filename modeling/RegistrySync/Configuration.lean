import RegistrySync.Certificate
import RegistrySync.Policy.Basic
import RegistrySync.Registry.Table

/-!
The configuration as a whole: registries, signature policy and trusted certificates, and the five
changes it admits. A change that is refused leaves the configuration as it was.
-/

namespace RegistrySync

structure Configuration where
  registries : Registry.Table
  policy : Policy
  certificates : List Certificate
  deriving DecidableEq

inductive Change where
  | setRegistryPolicy (allowed blocked insecure : List String)
  | setMirrors (registry : String) (mirrors : List String)
  | clearMirrors (registry : String)
  | clearAllMirrors
  | replaceCertificates (certificates : List Certificate)
  deriving DecidableEq, Repr

inductive Refusal where
  | allowedAndBlocked
  | unknownRegistry (registry : String)
  deriving DecidableEq, Repr

def Refusal.message : Refusal → String
  | allowedAndBlocked =>
    "Invalid argument: only one of allowed and blocked registries can be set"
  | unknownRegistry registry => "Registry not found: " ++ registry

namespace Configuration

def initial : Configuration :=
  ⟨.initial, .initial, []⟩

def isInitial (c : Configuration) : Bool :=
  c.registries.isInitial && c.policy = Policy.initial && c.certificates.isEmpty

def allow (c : Configuration) (registry : String) : Configuration :=
  { c with registries := c.registries.upsert registry .allow }

/-- A blocked registry is also rejected by the policy. -/
def block (c : Configuration) (registry : String) : Configuration :=
  { c with
    registries := c.registries.upsert registry .block
    policy := c.policy.reject registry }

def markInsecure (c : Configuration) (registry : String) : Configuration :=
  { c with registries := c.registries.upsert registry .markInsecure }

def resetAccess (c : Configuration) : Configuration :=
  { c with registries := c.registries.resetAccess, policy := c.policy.resetTransports }

def setRegistryPolicy (c : Configuration) (allowed blocked insecure : List String) :
    Configuration :=
  insecure.foldl markInsecure (blocked.foldl block (allowed.foldl allow c.resetAccess))

def apply (c : Configuration) : Change → Except Refusal Configuration
  | .setRegistryPolicy allowed blocked insecure =>
    if !allowed.isEmpty && !blocked.isEmpty then .error .allowedAndBlocked
    else .ok (c.setRegistryPolicy allowed blocked insecure)
  | .setMirrors registry mirrors =>
    .ok { c with registries := c.registries.upsert registry (.setMirrors mirrors) }
  | .clearMirrors registry =>
    if (c.registries.find? registry).isSome then
      .ok { c with registries := c.registries.modify registry .clearMirrors }
    else .error (.unknownRegistry registry)
  | .clearAllMirrors => .ok { c with registries := c.registries.clearMirrors }
  | .replaceCertificates certificates => .ok { c with certificates }

end Configuration
end RegistrySync
