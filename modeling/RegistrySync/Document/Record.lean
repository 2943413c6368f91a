import RegistrySync.Document.Value

/-!
Records: values with declared members. Members that are not declared are ignored. There are two
kinds of records: a strict one refuses a declared member that is given twice and may be written in
JSON as a list of values in the order of declaration; a lenient one has named members only, reads
every value of a member, and keeps the last.
-/

namespace RegistrySync.Value

def given (name : String) (members : List (String × Value)) : List Value :=
  members.filterMap fun (n, v) => if n = name then some v else none

/-- The member of a strict record with a declared name, if it is there. -/
def record? (declared : List String) : Value → Option (String → Option Value)
  | object members =>
    if declared.all fun name => (given name members).length ≤ 1
    then some fun name => (given name members).head?
    else none
  | array items =>
    if items.length ≤ declared.length then some fun name => (declared.zip items).lookup name
    else none
  | v => if v.isBlank then some fun _ => none else none

/-- A member of a lenient record: absent, null, or the last of the values given. -/
def lastOptional? {α : Type} (read : Value → Option α) (name : String)
    (members : List (String × Value)) : Option (Option α) := do
  let values ← (given name members).mapM (optional? read)
  return values.getLast?.join

/-- The declared members of a lenient record, with the types that are wanted of their values. -/
abbrev MemberTypes := List (String × (Value → Bool))

/-- The type of the values that a reader takes. -/
def takenBy {α : Type} (read : Value → Option α) (v : Value) : Bool :=
  (read v).isSome

def isNullOr (hasType : Value → Bool) (v : Value) : Bool :=
  v.isPresent?.any fun present => !present || hasType v

def isListOf (hasType : Value → Bool) (v : Value) : Bool :=
  v.elements?.any (·.all hasType)

/-- Whether every value that is given of a declared member is null or has the wanted type. -/
def areTyped (types : MemberTypes) (members : List (String × Value)) : Bool :=
  types.all fun (name, hasType) => (given name members).all (isNullOr hasType)

def isRecordOf (types : MemberTypes) (v : Value) : Bool :=
  v.members?.any (areTyped types)

end RegistrySync.Value

namespace RegistrySync

def readOr {α : Type} (default : α) (read : Value → Option α) : Option Value → Option α
  | some v => read v
  | none => some default

end RegistrySync
