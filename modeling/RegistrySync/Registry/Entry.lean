/-!
Entries of the registry table. An access flag is true or unset, never false; at most one of allowed
and blocked is set.
-/

namespace RegistrySync.Registry

structure Entry where
  location : String
  imagePrefix : String
  mirrors : List String
  blocked : Option Bool
  allowed : Option Bool
  insecure : Option Bool
  deriving DecidableEq, Repr

namespace Entry

def fresh (location : String) : Entry :=
  ⟨location, "", [], none, none, none⟩

def setMirrors (mirrors : List String) (e : Entry) : Entry :=
  { e with mirrors }

def clearMirrors (e : Entry) : Entry :=
  { e with mirrors := [] }

def allow (e : Entry) : Entry :=
  { e with allowed := some true, blocked := none }

def block (e : Entry) : Entry :=
  { e with allowed := none, blocked := some true }

def markInsecure (e : Entry) : Entry :=
  { e with insecure := some true }

def resetAccess (e : Entry) : Entry :=
  { e with allowed := none, blocked := none, insecure := none }

end Entry

inductive Edit where
  | setMirrors (mirrors : List String)
  | clearMirrors
  | allow
  | block
  | markInsecure
  | resetAccess
  deriving DecidableEq, Repr

namespace Entry

def edit : Edit → Entry → Entry
  | .setMirrors mirrors => setMirrors mirrors
  | .clearMirrors => clearMirrors
  | .allow => allow
  | .block => block
  | .markInsecure => markInsecure
  | .resetAccess => resetAccess

def editAll (edits : List Edit) (e : Entry) : Entry :=
  edits.foldl (fun e change => e.edit change) e

end Entry

end RegistrySync.Registry
