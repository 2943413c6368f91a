import RegistrySync.Proofs.Pass.Course
import RegistrySync.Proofs.TrustStore.Placement

/-!
Certificates that are not wanted any more. The next pass removes their files from the folder of
certificates; a file that was placed elsewhere, because the name of its registry leads there, stays.
-/

namespace RegistrySync

namespace Pass

open FileTree (LinksFrom Spares)

variable {t u v : FileTree} {a b c : Configuration} {d : Destinations}
  {summary first second : Summary}

/-- The location of the file of a certificate. -/
def goal (d : Destinations) (k : Certificate) : Location :=
  TrustStore.goal ⟨d.certsDir⟩ k

/-- What is left of a tree without the folder of certificates. -/
def kept (d : Destinations) (t : FileTree) (l : Location) : Option FileTree.Entry :=
  if d.certsDir.location <:+ l then none else t.entry? l

section

variable (hlinks : t.NoLinks) (hd : d.Suit t) (hrun : run c d t = (.ok summary, u))
include hlinks hd hrun

end

/-! ### A second pass -/

end Pass
end RegistrySync
