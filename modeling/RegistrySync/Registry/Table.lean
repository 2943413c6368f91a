import Std.Data.ExtTreeMap
import RegistrySync.Registry.Entry

/-!
The registry table: entries in the order in which their locations were first mentioned. The index
maps a location to the position of its entry; entries are only appended, so positions stay valid.
-/

namespace RegistrySync.Registry

structure Table where
  searchRegistries : List String
  shortNameMode : String
  entries : Array Entry
  index : Std.ExtTreeMap String Nat
  deriving DecidableEq

namespace Table

def initial : Table where
  searchRegistries := ["registry.access.redhat.com", "docker.io"]
  shortNameMode := ""
  entries := #[]
  index := ∅

def find? (t : Table) (location : String) : Option Entry := do
  let position ← t.index[location]?
  t.entries[position]?

/-- Appends a fresh entry for a location that has none. -/
def ensure (t : Table) (location : String) : Table :=
  if t.index.contains location then t
  else { t with
    entries := t.entries.push (Entry.fresh location)
    index := t.index.insert location t.entries.size }

def modify (t : Table) (location : String) (change : Entry → Entry) : Table :=
  match t.index[location]? with
  | some position => { t with entries := t.entries.modify position change }
  | none => t

def upsert (t : Table) (location : String) (change : Entry → Entry) : Table :=
  (t.ensure location).modify location change

def resetAccess (t : Table) : Table :=
  { t with entries := t.entries.map Entry.resetAccess }

def clearMirrors (t : Table) : Table :=
  { t with entries := t.entries.map Entry.clearMirrors }

def size (t : Table) : Nat :=
  t.entries.size

def hasAllowedAndBlocked (t : Table) : Bool :=
  t.entries.any (·.allowed.isSome) && t.entries.any (·.blocked.isSome)

def isInitial (t : Table) : Bool :=
  t.searchRegistries = initial.searchRegistries && t.shortNameMode = initial.shortNameMode
    && t.entries.isEmpty

end Table
end RegistrySync.Registry
