import RegistrySync.Policy.Document
import RegistrySync.Proofs.Json.RoundTrip

/-!
A policy is read back from its document, part by part: the value of the tree of a requirement, of a
list of rules, of the scopes of a transport and of all transports is read as just that.
-/

namespace RegistrySync

open Json

theorem Requirement.ofValue?_tree (level : Nat) (r : Requirement)
    : ofValue? level r.tree.value = some r := by
  cases r <;> rfl

theorem Transport.ofName?_name (t : Transport) : ofName? t.name = some t := by
  cases t <;> decide

namespace Policy

theorem rulesOfValue?_rulesTree (level : Nat) (rules : List Requirement)
    : rulesOfValue? level (rulesTree rules).value = some rules := by
  rw [rulesTree, Tree.value, Tree.itemValues_eq_map, List.map_map]
  exact Sequence.mapM_map_eq_some (Requirement.ofValue?_tree level) rules

/-! ### Scopes -/

theorem ofList_toList (scopes : Scopes) : Std.ExtTreeMap.ofList scopes.toList = scopes := by
  apply Std.ExtTreeMap.ext_getElem?
  intro scope
  cases hrules : scopes[scope]? with
  | none =>
    apply Std.ExtTreeMap.getElem?_ofList_of_contains_eq_false
    rw [← Bool.not_eq_true, List.contains_iff_mem, List.mem_map]
    rintro ⟨⟨other, rules⟩, hmem, rfl⟩
    rw [Std.ExtTreeMap.mem_toList_iff_getElem?_eq_some, hrules] at hmem
    contradiction
  | some rules =>
    apply Std.ExtTreeMap.getElem?_ofList_of_mem Std.ReflCmp.compare_self
    . exact Std.ExtTreeMap.distinct_keys_toList
    . exact Std.ExtTreeMap.mem_toList_iff_getElem?_eq_some.mpr hrules

theorem mapOf?_scopesTree (level : Nat) (scopes : Scopes)
    : (scopesTree scopes).value.mapOf? (rulesOfValue? level) = some scopes := by
  rw [scopesTree, Tree.value, Tree.memberValues_eq_map, List.map_map, Value.mapOf?,
    Value.members?, Option.bind_eq_bind, Option.bind_some, Sequence.mapM_map_eq_some]
  . rw [Option.bind_eq_bind, Option.bind_some, ← Std.ExtTreeMap.ofList_eq_foldl, ofList_toList]
    rfl
  . intro ⟨scope, rules⟩
    simp [rulesOfValue?_rulesTree]

/-! ### Transports -/

/-- The scopes of some transports as the members of a document. -/
def members (p : Policy) (ts : List Transport) : List (String × Tree) :=
  ts.filterMap fun t => (p.scopes? t).map fun scopes => (t.name, scopesTree scopes)

/-- Sets the scopes of some transports as another policy has them. -/
def adopt (p q : Policy) (ts : List Transport) : Policy :=
  ts.foldl (fun q t => ((p.scopes? t).map fun scopes => q.setScopes scopes t).getD q) q

theorem withTransports?_members (p q : Policy) (ts : List Transport)
    : q.withTransports? (Tree.memberValues (p.members ts)) = some (p.adopt q ts) := by
  induction ts generalizing q with
  | nil => rfl
  | cons t ts ih =>
    cases hscopes : p.scopes? t with
    | none =>
      rw [adopt, List.foldl_cons, hscopes, members, List.filterMap_cons_none (by rw [hscopes]; rfl)]
      exact ih q
    | some scopes =>
      rw [adopt, List.foldl_cons, hscopes, members,
        List.filterMap_cons_some (by rw [hscopes]; rfl), Tree.memberValues, withTransports?,
        Transport.ofName?_name, Option.bind_eq_bind, Option.bind_some, mapOf?_scopesTree,
        Option.bind_eq_bind, Option.bind_some]
      exact ih (q.setScopes scopes t)

theorem adopt_all (p : Policy) : p.adopt ⟨p.default, none, none, none⟩ Transport.all = p := by
  rcases p with ⟨default, _ | _, _ | _, _ | _⟩ <;> rfl

/-! ### Documents -/

theorem ofValue?_tree (p : Policy) : ofValue? p.tree.value = some p := by
  have hmember : p.tree.value.record? ["default", "transports"] = some fun name =>
      (Value.given name [("default", (rulesTree p.default).value),
        ("transports", p.transportsTree.value)]).head? := by
    rw [tree, Tree.value, Tree.memberValues_eq_map, Value.record?, if_pos]
    . rfl
    . rfl
  have hdefault := rulesOfValue?_rulesTree 3 p.default
  have htransports := withTransports?_members p ⟨p.default, none, none, none⟩ Transport.all
  rw [adopt_all] at htransports
  rw [ofValue?, hmember]
  change (rulesOfValue? 3 (rulesTree p.default).value).bind _ = _
  rw [hdefault]
  exact htransports

theorem ofJson?_toJson (p : Policy) : ofJson? p.toJson = some p := by
  rw [ofJson?, toJson, parse?_print, Option.bind_eq_bind, Option.bind_some, ofValue?_tree]

/-- Different policies have different documents, and a document that is read may be written anew. -/
theorem json_round_trip
    : (∀ p : Policy, ofJson? p.toJson = some p) ∧
      (∀ p q : Policy, p.toJson = q.toJson ↔ p = q) ∧
      ∀ text, ((ofJson? text).bind fun p => ofJson? p.toJson) = ofJson? text := by
  refine ⟨ofJson?_toJson, ?_, ?_⟩
  . intro p q
    constructor
    . intro h
      rw [← Option.some_inj, ← ofJson?_toJson p, h, ofJson?_toJson]
    . rintro rfl
      rfl
  . intro text
    cases ofJson? text with
    | none => rfl
    | some p => rw [Option.bind_some, ofJson?_toJson]

end Policy
end RegistrySync
