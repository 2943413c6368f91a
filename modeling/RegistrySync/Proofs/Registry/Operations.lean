import RegistrySync.Proofs.Registry.Index

/-!
The registry table after any sequence of its operations. The flags of an entry are true or unset,
and at most one of allowed and blocked is set.
-/

namespace RegistrySync.Registry

namespace Entry

@[simp]
theorem location_edit (change : Edit) (e : Entry) : (e.edit change).location = e.location := by
  cases change <;> rfl

@[simp]
theorem location_editAll (edits : List Edit) (e : Entry)
    : (e.editAll edits).location = e.location := by
  induction edits generalizing e with
  | nil => rfl
  | cons change edits ih => exact (ih (e.edit change)).trans (location_edit change e)

structure Tidy (e : Entry) : Prop where
  blocked : e.blocked = none ∨ e.blocked = some true
  allowed : e.allowed = none ∨ e.allowed = some true
  insecure : e.insecure = none ∨ e.insecure = some true
  exclusive : e.allowed = none ∨ e.blocked = none

theorem tidy_fresh (location : String) : (fresh location).Tidy :=
  ⟨.inl rfl, .inl rfl, .inl rfl, .inl rfl⟩

theorem tidy_resetAccess (e : Entry) : e.resetAccess.Tidy :=
  ⟨.inl rfl, .inl rfl, .inl rfl, .inl rfl⟩

namespace Tidy

variable {e : Entry} (h : e.Tidy)
include h

theorem setMirrors (mirrors : List String) : (e.setMirrors mirrors).Tidy :=
  ⟨h.blocked, h.allowed, h.insecure, h.exclusive⟩

theorem edit (change : Edit) : (e.edit change).Tidy := by
  cases change with
  | setMirrors mirrors => exact h.setMirrors mirrors
  | clearMirrors => exact h.setMirrors []
  | allow => exact ⟨.inl rfl, .inr rfl, h.insecure, .inr rfl⟩
  | block => exact ⟨.inr rfl, .inl rfl, h.insecure, .inl rfl⟩
  | markInsecure => exact ⟨h.blocked, h.allowed, .inr rfl, h.exclusive⟩
  | resetAccess => exact e.tidy_resetAccess

theorem editAll (edits : List Edit) : (e.editAll edits).Tidy := by
  induction edits generalizing e with
  | nil => exact h
  | cons change edits ih => exact ih (h.edit change)

end Tidy
end Entry

/-- The entry of a location is edited; if there is none, it is created first or nothing happens. -/
inductive Operation where
  | getOrCreate (location : String) (edits : List Edit)
  | getMut (location : String) (edits : List Edit)
  | resetAccess
  | clearAllMirrors
  deriving DecidableEq, Repr

/-- The location the operation is addressed to, unless it is for all entries. -/
def Operation.location? : Operation → Option String
  | .getOrCreate location _ | .getMut location _ => some location
  | .resetAccess | .clearAllMirrors => none

namespace Table

def perform (t : Table) : Operation → Table
  | .getOrCreate location edits => t.upsert location (Entry.editAll edits)
  | .getMut location edits => t.modify location (Entry.editAll edits)
  | .resetAccess => t.resetAccess
  | .clearAllMirrors => t.clearMirrors

def after (operations : List Operation) : Table :=
  operations.foldl perform initial

/-- What every step keeps, every run keeps. -/
theorem after_induction {P : Table → Prop} (hinitial : P initial)
    (hstep : ∀ t operation, P t → P (t.perform operation)) (operations : List Operation)
    : P (after operations) := by
  suffices hrun : ∀ t, P t → P (operations.foldl perform t) from hrun initial hinitial
  induction operations with
  | nil => exact fun _ h => h
  | cons operation operations ih => exact fun t h => ih _ (hstep t operation h)

def Tidy (t : Table) : Prop :=
  ∀ e ∈ t.entries, e.Tidy

namespace Tidy

variable {t : Table} (h : t.Tidy)
include h

theorem ensure (location : String) : (t.ensure location).Tidy := by
  unfold Table.ensure
  split
  . exact h
  . intro e he
    rcases Array.mem_push.mp he with he | rfl
    . exact h e he
    . exact Entry.tidy_fresh location

theorem modify (location : String) {change : Entry → Entry}
    (hchange : ∀ e, e.Tidy → (change e).Tidy) : (t.modify location change).Tidy := by
  unfold Table.modify
  split
  . next position _ =>
    intro e he
    obtain ⟨i, hi⟩ := Array.mem_iff_getElem?.mp he
    rw [Array.getElem?_modify] at hi
    split at hi
    . obtain ⟨e, hentry, rfl⟩ := Option.map_eq_some_iff.mp hi
      exact hchange e (h e (Array.mem_of_getElem? hentry))
    . exact h e (Array.mem_of_getElem? hi)
  . exact h

theorem map {change : Entry → Entry} (hchange : ∀ e, e.Tidy → (change e).Tidy)
    : ∀ e ∈ t.entries.map change, e.Tidy := by
  intro e he
  obtain ⟨e, hentry, rfl⟩ := Array.mem_map.mp he
  exact hchange e (h e hentry)

theorem perform (operation : Operation) : (t.perform operation).Tidy := by
  cases operation with
  | getOrCreate location edits =>
    exact (h.ensure location).modify location fun _ he => he.editAll edits
  | getMut location edits => exact h.modify location fun _ he => he.editAll edits
  | resetAccess => exact h.map fun e _ => e.tidy_resetAccess
  | clearAllMirrors => exact h.map fun _ he => he.setMirrors []

end Tidy

theorem tidy_after (operations : List Operation) : (after operations).Tidy :=
  after_induction (fun _ he => absurd he (Array.not_mem_empty _))
    (fun _ operation h => h.perform operation) operations

/-! ### The index, the order of the entries, and the entries an operation is not addressed to -/

namespace Indexed

variable {t : Table} (h : t.Indexed)
include h

theorem perform (operation : Operation) : (t.perform operation).Indexed := by
  cases operation with
  | getOrCreate location edits => exact h.upsert (Entry.location_editAll edits) location
  | getMut location edits => exact h.modify (Entry.location_editAll edits) location
  | resetAccess => exact h.mapEntries Entry.location_resetAccess
  | clearAllMirrors => exact h.mapEntries Entry.location_clearMirrors

theorem lt_size {location : String} {position : Nat}
    (hposition : t.index[location]? = some position) : position < t.entries.size := by
  rw [← length_locations]
  exact (List.getElem?_eq_some_iff.mp ((h location position).mp hposition)).1

theorem exists_locations_perform (operation : Operation)
    : ∃ added : Option String, (t.perform operation).locations = t.locations ++ added.toList ∧
        ∀ r, added = some r → operation.location? = some r ∧ r ∉ t.locations := by
  cases operation with
  | getOrCreate location edits =>
    rw [Table.perform, h.locations_upsert (Entry.location_editAll edits)]
    split
    . exact ⟨none, by simp, nofun⟩
    . next hfresh =>
      refine ⟨some location, rfl, ?_⟩
      rintro r ⟨⟩
      exact ⟨rfl, hfresh⟩
  | getMut location edits =>
    rw [Table.perform, locations_modify (Entry.location_editAll edits)]
    exact ⟨none, by simp, nofun⟩
  | resetAccess =>
    refine ⟨none, ?_, nofun⟩
    rw [Table.perform, resetAccess_eq_mapEntries, locations_mapEntries Entry.location_resetAccess]
    simp
  | clearAllMirrors =>
    refine ⟨none, ?_, nofun⟩
    rw [Table.perform, clearMirrors_eq_mapEntries, locations_mapEntries Entry.location_clearMirrors]
    simp

section

variable {position : Nat} {e : Entry} (hentry : t.entries[position]? = some e)
include hentry

omit h in
theorem getElem?_entries_ensure (location : String)
    : (t.ensure location).entries[position]? = some e := by
  unfold Table.ensure
  split
  . exact hentry
  . rw [Array.getElem?_push, if_neg]
    . exact hentry
    . exact Nat.ne_of_lt (Array.getElem?_eq_some_iff.mp hentry).1

variable {location : String} (hne : e.location ≠ location)
include hne

theorem getElem?_entries_modify (change : Entry → Entry)
    : (t.modify location change).entries[position]? = some e := by
  unfold Table.modify
  split
  . next other hother =>
    rw [Array.getElem?_modify, if_neg]
    . exact hentry
    . rintro rfl
      have hlocation := (h location other).mp hother
      rw [getElem?_locations, hentry, Option.map_some, Option.some.injEq] at hlocation
      contradiction
  . exact hentry

theorem getElem?_entries_perform {operation : Operation}
    (hlocation : operation.location? = some location)
    : (t.perform operation).entries[position]? = some e := by
  cases operation with
  | getOrCreate other edits =>
    injection hlocation with hlocation
    subst hlocation
    exact (h.ensure other).getElem?_entries_modify (getElem?_entries_ensure hentry other) hne _
  | getMut other edits =>
    injection hlocation with hlocation
    subst hlocation
    exact h.getElem?_entries_modify hentry hne _
  | resetAccess => contradiction
  | clearAllMirrors => contradiction

end

end Indexed

theorem indexed_after (operations : List Operation) : (after operations).Indexed :=
  after_induction indexed_initial (fun _ operation h => h.perform operation) operations

theorem index_agrees_with_entries (operations : List Operation)
    : let t : Table := after operations
      (∀ (location : String) (position : Nat), t.index[location]? = some position ↔
        t.entries[position]?.map (·.location) = some location) ∧
      t.locations.Nodup ∧
      (∀ (location : String) (position : Nat),
        t.index[location]? = some position → position < t.entries.size) ∧
      (∀ r e, t.find? r = some e ↔ e ∈ t.entries ∧ e.location = r) ∧
      (∀ r, t.find? r = none ↔ ∀ e ∈ t.entries, e.location ≠ r) ∧
      (∀ operation, ∃ added : Option String,
        (t.perform operation).locations = t.locations ++ added.toList ∧
          ∀ r, added = some r → operation.location? = some r ∧ r ∉ t.locations) ∧
      (∀ operation location, operation.location? = some location → ∀ (position : Nat) e,
        t.entries[position]? = some e → e.location ≠ location →
          (t.perform operation).entries[position]? = some e) ∧
      ∀ e ∈ t.entries, e.Tidy := by
  intro t
  have hindexed : t.Indexed := indexed_after operations
  refine ⟨?_, hindexed.nodup_locations, ?_, hindexed.find?_eq_some_iff,
    hindexed.find?_eq_none_iff_forall, hindexed.exists_locations_perform, ?_,
    tidy_after operations⟩
  . intro location position
    rw [← getElem?_locations]
    exact hindexed location position
  . intro location position hposition
    exact hindexed.lt_size hposition
  . intro operation location hlocation position e hentry hne
    exact hindexed.getElem?_entries_perform hentry hne hlocation

theorem header_perform (t : Table) (operation : Operation)
    : (t.perform operation).header = t.header := by
  cases operation with
  | getOrCreate location edits => exact header_upsert t _ location
  | getMut location edits => exact header_modify t _ location
  | resetAccess => rfl
  | clearAllMirrors => rfl

theorem header_after (operations : List Operation) : (after operations).header = initial.header :=
  after_induction (P := fun t => t.header = initial.header) rfl
    (fun t operation h => (header_perform t operation).trans h) operations

end Table
end RegistrySync.Registry
