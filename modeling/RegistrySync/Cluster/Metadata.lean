import RegistrySync.Document.Integer
import RegistrySync.Document.Nesting
import RegistrySync.Document.Record
import RegistrySync.Text.Timestamp

/-!
Metadata of cluster objects. Only an object's name and namespace are made use of, but all members
must have the wanted types.
-/

namespace RegistrySync.Cluster

structure Metadata where
  (name? generateName? namespace? : Option String)
  deriving DecidableEq, Repr

namespace Metadata

open Value

def none : Metadata := ⟨.none, .none, .none⟩

/-- The name, or else the stem from which one is generated. -/
def name (m : Metadata) : String :=
  (m.name?.or m.generateName?).getD ""

def isTime (v : Value) : Bool :=
  v.text?.any fun s => Timestamp.accepts s.toList

/-- The members of the reference to an owner. -/
def ownerTypes : MemberTypes :=
  [("apiVersion", takenBy text?), ("blockOwnerDeletion", takenBy bool?),
    ("controller", takenBy bool?), ("kind", takenBy text?), ("name", takenBy text?),
    ("uid", takenBy text?)]

/-- The members of an entry that says who manages which fields. The fields are kept as they are. -/
def managerTypes : MemberTypes :=
  [("apiVersion", takenBy text?), ("fieldsType", takenBy text?), ("fieldsV1", isKept .none),
    ("manager", takenBy text?), ("operation", takenBy text?), ("subresource", takenBy text?),
    ("time", isTime)]

def types : MemberTypes :=
  [("annotations", takenBy textMap?), ("creationTimestamp", isTime),
    ("deletionGracePeriodSeconds", takenBy integer?), ("deletionTimestamp", isTime),
    ("finalizers", takenBy texts?), ("generateName", takenBy text?),
    ("generation", takenBy integer?), ("labels", takenBy textMap?),
    ("managedFields", isListOf (isRecordOf managerTypes)), ("name", takenBy text?),
    ("namespace", takenBy text?), ("ownerReferences", isListOf (isRecordOf ownerTypes)),
    ("resourceVersion", takenBy text?), ("selfLink", takenBy text?), ("uid", takenBy text?)]

def ofValue? (v : Value) : Option Metadata := do
  let members ← v.members?
  if !areTyped types members then .none
  let text (name : String) := lastOptional? text? name members
  return ⟨← text "name", ← text "generateName", ← text "namespace"⟩

end Metadata
end RegistrySync.Cluster
