import RegistrySync.Document.Nesting
import RegistrySync.Document.Record
import RegistrySync.Json.Document
import RegistrySync.Json.Tree
import RegistrySync.Policy.Basic

/-!
The signature policy as a JSON document: a record of the default requirements and the transports, in
which a requirement is a record with its name as `type`.
-/

namespace RegistrySync

namespace Requirement

def tree (r : Requirement) : Json.Tree :=
  .record [("type", .text r.name)]

/-- How many levels of a document may be open at once. -/
def maxNesting : Nat := 127

/-- A requirement at a level of the document: a record that gives its type once, or a list of the
type alone. The other members are kept aside until the type is known, so they must be sound. -/
def ofValue? (level : Nat) : Value → Option Requirement
  | .object members =>
    if Value.areMembersKept (some (maxNesting - level)) (members.filter (·.1 ≠ "type")) then
      match Value.given "type" members with
      | [v] => do ofName? (← v.text?)
      | _ => none
    else none
  | .array [v] => do ofName? (← v.text?)
  | _ => none

end Requirement

namespace Policy

def rulesTree (rules : List Requirement) : Json.Tree :=
  .list (rules.map Requirement.tree)

def scopesTree (scopes : Scopes) : Json.Tree :=
  .record (scopes.toList.map fun (scope, rules) => (scope, rulesTree rules))

def transportsTree (p : Policy) : Json.Tree :=
  .record (Transport.all.filterMap fun t => (p.scopes? t).map fun scopes =>
    (t.name, scopesTree scopes))

def tree (p : Policy) : Json.Tree :=
  .record [("default", rulesTree p.default), ("transports", p.transportsTree)]

def toJson (p : Policy) : String :=
  p.tree.print

def rulesOfValue? (level : Nat) : Value → Option (List Requirement) :=
  Value.listOf? (Requirement.ofValue? level)

/-- Takes the transports one after the other; one that is given again is replaced. -/
def withTransports? (p : Policy) : List (String × Value) → Option Policy
  | [] => some p
  | (name, v) :: rest => do
    let t ← Transport.ofName? name
    let scopes ← v.mapOf? (rulesOfValue? 5)
    (p.setScopes scopes t).withTransports? rest

def ofValue? (v : Value) : Option Policy := do
  let member ← v.record? ["default", "transports"]
  let default ← rulesOfValue? 3 (← member "default")
  Policy.withTransports? ⟨default, none, none, none⟩ (← (← member "transports").members?)

def ofJson? (text : String) : Option Policy := do
  ofValue? (← Json.parse? text)

end Policy
end RegistrySync
