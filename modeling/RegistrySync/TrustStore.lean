import RegistrySync.Action
import RegistrySync.Certificate

/-!
The folder of trusted certificates: one folder for each registry, with the certificate in it.
-/

namespace RegistrySync

structure TrustStore where
  root : Path
  deriving DecidableEq, Repr

namespace TrustStore

def folder (s : TrustStore) (c : Certificate) : Path :=
  s.root.join (.ofText c.folder)

def file (s : TrustStore) (c : Certificate) : Path :=
  (s.folder c).join (.ofText Certificate.fileName)

def clearing (s : TrustStore) : List Action :=
  [.removeTree s.root]

def writing (s : TrustStore) (c : Certificate) : List Action :=
  [.makeDirectories (s.folder c), .write (s.file c) c.content]

def writingAll (s : TrustStore) (certificates : List Certificate) : List Action :=
  certificates.flatMap s.writing

end TrustStore
end RegistrySync
