import Std.Data.ExtTreeMap
import RegistrySync.Document.Record
import RegistrySync.Sha256

/-!
Certificate authorities of registries. Cluster object keys hold no colon, so the colon in the
address of a registry is written as two dots there; the folder of a certificate has the colon again.
-/

namespace RegistrySync

/-- The first two dots in a row become a colon. -/
def colonForDots : List Char → List Char
  | '.' :: '.' :: rest => ':' :: rest
  | c :: rest => c :: colonForDots rest
  | [] => []

def folderName (registry : String) : String :=
  String.ofList (colonForDots registry.toList)

structure Certificate where
  registry : String
  content : String
  deriving DecidableEq, Repr

namespace Certificate

def fileName : String := "ca.crt"

def ofMap (data : Std.ExtTreeMap String String) : List Certificate :=
  data.toList.map fun (registry, content) => ⟨registry, content⟩

def folder (c : Certificate) : String :=
  folderName c.registry

/-- The first eight bytes of the digest of the content, in hexadecimal. -/
def fingerprint (c : Certificate) : String :=
  Hex.ofBytes ((Sha256.digest c.content.toUTF8.toList).take 8)

def ofValue? (v : Value) : Option Certificate := do
  let member ← v.record? ["registry", "certificate"]
  return ⟨← (← member "registry").text?, ← (← member "certificate").text?⟩

end Certificate
end RegistrySync
