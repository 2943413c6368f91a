import RegistrySync.Registry.Table
import RegistrySync.Toml.Document

/-!
The registry table as a TOML document, one table per entry. A flag is written only when it is set.
-/

namespace RegistrySync.Registry

namespace Entry

def flag (key : String) : Option Bool → Toml.Pairs
  | some b => [(key, .bool b)]
  | none => []

def pairs (e : Entry) : Toml.Pairs :=
  [("location", .text e.location), ("prefix", .text e.imagePrefix), ("mirror", .list e.mirrors)]
    ++ flag "blocked" e.blocked ++ flag "allowed" e.allowed ++ flag "insecure" e.insecure

end Entry

namespace Table

def document (t : Table) : Toml.Document where
  top := [("unqualified-search-registries", .list t.searchRegistries),
    ("short-name-mode", .text t.shortNameMode)]
  tableName := "registry"
  tables := t.entries.toList.map Entry.pairs

def toToml (t : Table) : String :=
  t.document.print

end Table
end RegistrySync.Registry
